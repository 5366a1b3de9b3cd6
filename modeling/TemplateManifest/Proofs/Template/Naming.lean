import TemplateManifest.Proofs.Template.NameWords
import TemplateManifest.Template.Parse

/-!
The names in the tree of a template are words of its source. Main statements: `Template.isWorded_of_parse`
and `Template.isNamed_of_parse`, for the names that code generation writes without quotes.
-/

namespace TemplateManifest

namespace Statement

open TemplateManifest.Parser Node

variable {N : String → Prop}

theorem makes_withContext : withContext.Makes N fun _ => True :=
  Consumes.makes (adds_withContext (m := 0))

/-- The parameters have names of a kind, and their defaults are worded. -/
def AreWordedParams (N : String → Prop) (params : List (String × Option Node)) : Prop :=
  (∀ param ∈ params, N param.1) ∧ AreWorded N (params.filterMap (·.2))

theorem areWordedParams_nil : AreWordedParams N [] :=
  ⟨List.forall_mem_nil _, areWorded_nil⟩

theorem AreWordedParams.append {params : List (String × Option Node)} {name : String}
    {default : Option Node} (h : AreWordedParams N params) (hname : N name)
    (hdefault : AreWorded N default.toList) : AreWordedParams N (params ++ [(name, default)]) := by
  refine ⟨List.forall_mem_append.mpr ⟨h.1, List.forall_mem_singleton.mpr hname⟩, ?_⟩
  rw [List.filterMap_append]
  refine areWorded_append.mpr ⟨h.2, ?_⟩
  cases default with
  | none => exact areWorded_nil
  | some node => exact hdefault

theorem makes_parameter {params : List (String × Option Node)} (h : AreWordedParams N params) :
    (parameter params).Makes N (AreWordedParams N) := by
  refine (makes_expectSymbol _).bind fun name hname => (makes_skipIf _).bind fun hasDefault _ => ?_
  split
  · exact makes_expression.bind fun default hdefault =>
      makes_pure (h.append hname (List.forall_mem_singleton.mpr hdefault))
  · exact makes_pure (h.append hname areWorded_nil)

theorem makes_parameters : parameters.Makes N (AreWordedParams N) :=
  (makes_expect _ _).bind fun _ _ => makes_commaSeparated _ _ _ (fun _ => makes_parameter)
    areWordedParams_nil

/-- A node with parameters has their names and holds their defaults. -/
theorem isWorded_of_params {root : Node} {params : List (String × Option Node)} {body : List Node}
    (hbare : root.bareNames = params.map (·.1)) (hsymbol : root.variableName? = none)
    (hchildren : root.children = params.filterMap (·.2) ++ body) (hparams : AreWordedParams N params)
    (hbody : AreWorded N body) : root.IsWorded N := by
  refine isWorded_iff.mpr ⟨⟨?_, by simp [hsymbol]⟩, hchildren ▸ areWorded_append.mpr ⟨hparams.2, hbody⟩⟩
  rw [hbare]
  exact List.forall_mem_map.mpr hparams.1

theorem makes_signature (tolerant : Bool) :
    (signature tolerant).Makes N (Expression.Arguments.AreWorded N) := by
  refine makes_peek.bind fun token _ => ?_
  split
  · exact Expression.makes_callArguments Expression.makeWorded_nested
  · have hbare : (iterate (fun args => do
        if (← peek).kind = .blockEnd then return .done args
        unless Expression.Arguments.isEmpty args do
          let _ ← expect .comma "',' between arguments"
        return .more (← Expression.argument Expression.nested args)) {} :
          Parser Expression.Arguments).Makes N (Expression.Arguments.AreWorded N) := by
      refine makes_iterate (I := Expression.Arguments.AreWorded N)
        (fun args hargs => makes_peek.bind fun token _ => ?_)
        Expression.Arguments.areWorded_empty
      have hmore : (do return .more (← Expression.argument Expression.nested args) :
          Parser (Step Expression.Arguments Expression.Arguments)).Makes N
            (Step.Keeps (Expression.Arguments.AreWorded N) (Expression.Arguments.AreWorded N)) :=
        (Expression.makes_argument Expression.makeWorded_nested hargs).bind fun _ h => makes_pure h
      split
      · exact makes_pure hargs
      · split
        · exact hmore
        · exact (makes_expect _ _).bind fun _ _ => hmore
    split
    · exact hbare
    · exact makes_fail_bind _ _

/-- The parsers of bodies give worded nodes. -/
def Bodies.MakeWorded (N : String → Prop) (bodies : Bodies) : Prop :=
  ∀ stop, (bodies stop).Makes N (AreWorded N)

section

variable {bodies : Bodies} (hbodies : bodies.MakeWorded N)
include hbodies

/-- A body and the tag that closes it. -/
theorem Bodies.MakeWorded.bind_closed {α : Type} {P : α → Prop} {stop : List String} {name : String}
    {next : List Node → Parser α} (hnext : ∀ body, AreWorded N body → (next body).Makes N P) :
    (do
      let body ← bodies stop
      closeTag name
      next body).Makes N P :=
  (hbodies stop).bind fun body hbody => (makes_closeTag name).bind fun _ _ => hnext body hbody

theorem makes_loop : (loop bodies).Makes N (IsWorded N) := by
  refine makes_next.bind fun token _ => (makes_names _).bind fun targets _ => ?_
  refine (makes_expectKeyword _).bind fun _ _ => makes_expression.bind fun iterated hiterated => ?_
  refine (makes_closeTag _).bind fun _ _ => (hbodies _).bind fun body hbody => ?_
  have hloop (otherwise : List Node) (hotherwise : AreWorded N otherwise) :
      (Node.forEach token.pos targets iterated body otherwise).IsWorded N :=
    isWorded_of_children rfl rfl
      (areWorded_cons.mpr ⟨hiterated, areWorded_append.mpr ⟨hbody, hotherwise⟩⟩)
  refine (makes_skipIf _).bind fun hasElse _ => ?_
  split
  · exact (makes_closeTag _).bind fun _ _ => hbodies.bind_closed fun otherwise hotherwise =>
      makes_pure (hloop otherwise hotherwise)
  · exact (makes_closeTag _).bind fun _ _ => makes_pure (hloop [] areWorded_nil)

theorem makes_assignment : (assignment bodies).Makes N (IsWorded N) := by
  refine makes_next.bind fun token _ => (makes_names _).bind fun targets _ => ?_
  have hassign (value : Node) (h : value.IsWorded N) :
      (Node.assign token.pos targets value).IsWorded N :=
    isWorded_of_children rfl rfl (List.forall_mem_singleton.mpr h)
  refine (makes_skipIf _).bind fun hasValue _ => ?_
  split
  · exact makes_expression.bind fun value hvalue => (makes_closeTag _).bind fun _ _ =>
      makes_pure (hassign value hvalue)
  · exact (makes_closeTag _).bind fun _ _ => hbodies.bind_closed fun body hbody =>
      makes_pure (hassign _ (isWorded_of_children rfl rfl hbody))

theorem makes_block : (block bodies).Makes N (IsWorded N) := by
  refine makes_next.bind fun token _ => (makes_expectSymbol _).bind fun name hname => ?_
  refine (makes_closeTag _).bind fun _ _ => (hbodies _).bind fun body hbody => ?_
  refine (makes_expectKeyword _).bind fun _ _ => (makes_skipIf _).bind fun _ _ => ?_
  exact (makes_expect _ _).bind fun _ _ => makes_pure
    (isWorded_iff.mpr ⟨⟨List.forall_mem_singleton.mpr hname, by simp [variableName?]⟩, hbody⟩)

theorem makes_macroDefinition : (macroDefinition bodies).Makes N (IsWorded N) := by
  refine makes_next.bind fun token _ => (makes_expectSymbol _).bind fun name _ => ?_
  refine makes_parameters.bind fun params hparams => (makes_closeTag _).bind fun _ _ => ?_
  exact hbodies.bind_closed fun body hbody =>
    makes_pure (isWorded_of_params rfl rfl rfl hparams hbody)

/-- The conditions of branches and their bodies are worded. -/
def AreWordedBranches (N : String → Prop) (branches : List Branch) : Prop :=
  ∀ b ∈ branches, b.cond.IsWorded N ∧ AreWorded N b.body

omit hbodies in
theorem isWorded_conditionalNode {branches : List Branch} (h : AreWordedBranches N branches)
    {otherwise : List Node} (hotherwise : AreWorded N otherwise) :
    (conditionalNode branches otherwise).IsWorded N := by
  have hchain (branches : List Branch) (h : AreWordedBranches N branches) :
      AreWorded N (chain branches otherwise) := by
    induction branches with
    | nil => exact hotherwise
    | cons b branches ih =>
      obtain ⟨⟨hcond, hbody⟩, h⟩ := List.forall_mem_cons.mp h
      exact List.forall_mem_singleton.mpr (isWorded_of_children rfl rfl
        (areWorded_cons.mpr ⟨hcond, areWorded_append.mpr ⟨hbody, ih h⟩⟩))
  rw [conditionalNode]
  cases hnodes : chain branches otherwise with
  | nil => exact isWorded_of_children rfl rfl areWorded_nil
  | cons node nodes => exact hchain branches h node (hnodes ▸ List.mem_cons_self)

theorem makes_conditional : (conditional bodies).Makes N (IsWorded N) := by
  refine makes_next.bind fun first _ => makes_iterate
    (I := fun state : List Branch × Token => AreWordedBranches N state.1) (fun state hstate => ?_)
    (List.forall_mem_nil _)
  obtain ⟨branches, keyword⟩ := state
  refine makes_expression.bind fun cond hcond => (makes_closeTag _).bind fun _ _ => ?_
  refine (hbodies _).bind fun body hbody => makes_next.bind fun closing _ => ?_
  have hbranches : AreWordedBranches N (branches ++ [⟨keyword.pos, cond, body⟩]) :=
    List.forall_mem_append.mpr ⟨hstate, List.forall_mem_singleton.mpr ⟨hcond, hbody⟩⟩
  split
  · exact makes_pure hbranches
  · split
    · exact (makes_closeTag _).bind fun _ _ => hbodies.bind_closed fun otherwise hotherwise =>
        makes_pure (isWorded_conditionalNode hbranches hotherwise)
    · exact (makes_closeTag _).bind fun _ _ =>
        makes_pure (isWorded_conditionalNode hbranches areWorded_nil)

theorem makes_callBlock : (callBlock bodies).Makes N (IsWorded N) := by
  refine makes_next.bind fun token _ => makes_peek.bind fun opening _ => ?_
  split
  case' isTrue => refine makes_parameters.bind fun params hparams => ?_
  case' isFalse => refine (makes_pure (areWordedParams_nil (N := N))).bind fun params hparams => ?_
  all_goals
    refine makes_expression.bind fun called hcalled => (makes_closeTag _).bind fun _ _ => ?_
    refine hbodies.bind_closed fun body hbody => ?_
    have hcaller : (Node.callerBody token.pos params body).IsWorded N :=
      isWorded_of_params rfl rfl rfl hparams hbody
    split
    · next pos callee args kwargs =>
      refine makes_pure (isWorded_of_children rfl rfl (List.forall_mem_singleton.mpr ?_))
      obtain ⟨hcallee, hrest⟩ := areWorded_cons.mp (isWorded_iff.mp hcalled).2
      refine isWorded_of_children rfl rfl (areWorded_cons.mpr ⟨hcallee, ?_⟩)
      rw [List.map_append, ← List.append_assoc]
      exact areWorded_append.mpr ⟨hrest, List.forall_mem_singleton.mpr hcaller⟩
    · exact makes_failAt _ _

theorem makes_filterBlock : (filterBlock bodies).Makes N (IsWorded N) := by
  refine makes_next.bind fun token _ => makes_peek.bind fun nameToken _ => ?_
  refine Expression.makes_filterName.bind fun name _ => ?_
  refine (Expression.makes_optionalArguments Expression.makeWorded_nested).bind fun args hargs =>
    (makes_closeTag _).bind fun _ _ => hbodies.bind_closed fun body hbody => makes_pure ?_
  refine isWorded_of_children rfl rfl (List.forall_mem_singleton.mpr ?_)
  exact isWorded_of_children rfl rfl
    (areWorded_cons.mpr ⟨isWorded_of_children rfl rfl hbody, hargs⟩)

omit hbodies in
theorem isWorded_inclusion {pos : Position} {form : Inclusion} {template : Node}
    (h : template.IsWorded N) : (Node.inclusion pos form template).IsWorded N :=
  isWorded_of_children rfl rfl (List.forall_mem_singleton.mpr h)

omit hbodies in
theorem makes_parentTemplate : parentTemplate.Makes N (IsWorded N) :=
  makes_next.bind fun _ _ => makes_expression.bind fun _ htemplate =>
    (makes_closeTag _).bind fun _ _ => makes_pure (isWorded_inclusion htemplate)

omit hbodies in
theorem makes_includedTemplate : includedTemplate.Makes N (IsWorded N) := by
  refine makes_next.bind fun token _ => makes_expression.bind fun template htemplate => ?_
  refine (makes_skipIf _).bind fun ignoreMissing _ => ?_
  split
  · exact (makes_expectKeyword _).bind fun _ _ => (makes_closeTag _).bind fun _ _ =>
      makes_pure (isWorded_inclusion htemplate)
  · exact (makes_closeTag _).bind fun _ _ => makes_pure (isWorded_inclusion htemplate)

omit hbodies in
theorem makes_importedTemplate : importedTemplate.Makes N (IsWorded N) := by
  refine makes_next.bind fun token _ => makes_expression.bind fun template htemplate => ?_
  refine (makes_expectKeyword _).bind fun _ _ => (makes_expectSymbol _).bind fun target _ => ?_
  exact makes_withContext.bind fun context _ => (makes_closeTag _).bind fun _ _ =>
    makes_pure (isWorded_inclusion htemplate)

omit hbodies in
theorem makes_importedNames : importedNames.Makes N (IsWorded N) := by
  refine makes_next.bind fun token _ => makes_expression.bind fun template htemplate => ?_
  refine (makes_expectKeyword _).bind fun _ _ => ?_
  refine Makes.bind (P := fun _ => True) (makes_iterate (I := fun _ => True) (fun names _ => ?_) trivial)
    fun form _ => (makes_closeTag _).bind fun _ _ => makes_pure (isWorded_inclusion htemplate)
  have hname : (do
      let name ← expectSymbol "import name"
      if ← skipSymbol "as" then
        return .more (names ++ [(name, some (← expectSymbol "import alias"))])
      else
        return .more (names ++ [(name, none)]) :
        Parser (Step (List (String × Option String)) Inclusion)).Makes N
        (Step.Keeps (fun _ => True) fun _ => True) := by
    refine (makes_expectSymbol _).bind fun name _ => (makes_skipIf _).bind fun hasAlias _ => ?_
    split
    · exact (makes_expectSymbol _).bind fun _ _ => makes_pure trivial
    · exact makes_pure trivial
  refine makes_withContext.bind fun context _ => ?_
  split
  · exact makes_pure trivial
  · refine makes_peek.bind fun token _ => ?_
    split
    · split
      · exact makes_fail_bind _ _
      · exact makes_pure trivial
    · split
      · exact hname
      · exact (makes_expect _ _).bind fun _ _ => hname

omit hbodies in
theorem isWorded_extensionCall {pos : Position} {site : Site} {method : String}
    {args : Expression.Arguments} {positional : List Node} {bodies : List (List Node)} {isAsync : Bool}
    (hpositional : AreWorded N positional) (hkeyword : AreWorded N (args.keyword.map (·.2)))
    (hbodies : ∀ body ∈ bodies, AreWorded N body) :
    (Node.extensionCall pos site method positional args.keyword bodies isAsync).IsWorded N :=
  isWorded_of_children rfl rfl (areWorded_append.mpr
    ⟨areWorded_append.mpr ⟨hpositional, hkeyword⟩, .flatten hbodies⟩)

theorem makes_standardTag (e : Extension) (hasBody : Bool) (identity : Identity) (isAsync : Bool) :
    (standardTag bodies e hasBody identity isAsync).Makes N (IsWorded N) := by
  refine makes_next.bind fun tag _ => (makes_signature true).bind fun args hargs => ?_
  obtain ⟨hpositional, hkeyword⟩ := areWorded_append.mp hargs
  refine (makes_closeTag _).bind fun _ _ => ?_
  split
  · exact hbodies.bind_closed fun body hbody => makes_pure
      (isWorded_extensionCall hpositional hkeyword (List.forall_mem_singleton.mpr hbody))
  · exact makes_pure (isWorded_extensionCall hpositional hkeyword (List.forall_mem_nil _))

omit hbodies in
theorem makes_scriptedSignature (form : SignatureForm) :
    (scriptedSignature form).Makes N (Expression.Arguments.AreWorded N) := by
  cases form with
  | tolerant => exact makes_signature true
  | strict => exact makes_signature false
  | expression =>
    exact makes_expression.bind fun _ h => makes_pure (List.forall_mem_singleton.mpr h)
  | none => exact makes_pure Expression.Arguments.areWorded_empty

theorem makes_scriptedBodies (stops : List (List String)) :
    (scriptedBodies bodies stops).Makes N fun read => ∀ body ∈ read, AreWorded N body := by
  induction stops with
  | nil => exact makes_pure (List.forall_mem_nil _)
  | cons stop stops ih =>
    exact (hbodies _).bind fun body hbody => makes_next.bind fun closing _ =>
      (makes_closeTag _).bind fun _ _ => ih.bind fun rest hrest =>
        makes_pure (List.forall_mem_cons.mpr ⟨hbody, hrest⟩)

omit hbodies in
/-- A scripted tag only puts its arguments and its bodies together. -/
theorem isWorded_scriptedNode (e : Extension) (script : TagScript) (pos : Position)
    {args : Expression.Arguments} {read : List (List Node)} (hargs : args.AreWorded N)
    (hread : ∀ body ∈ read, AreWorded N body) :
    (scriptedNode e script pos args read).IsWorded N := by
  obtain ⟨hpositional, hkeyword⟩ := areWorded_append.mp hargs
  have hall : AreWorded N (args.positional ++ read.flatten) :=
    areWorded_append.mpr ⟨hpositional, .flatten hread⟩
  unfold scriptedNode
  dsimp only
  split
  · next node _ _ heq => exact hpositional node (heq ▸ List.mem_cons_self)
  · exact isWorded_of_children rfl rfl hall
  · exact isWorded_extensionCall hall hkeyword (List.forall_mem_nil _)
  · exact isWorded_extensionCall hpositional hkeyword hread

theorem makes_scriptedTag (e : Extension) (script : TagScript) :
    (scriptedTag bodies e script).Makes N (IsWorded N) := by
  have hargs (tag : Token) : (do
      let args ← scriptedSignature script.signature
      closeTag tag.value
      let read ← scriptedBodies bodies script.bodies
      return scriptedNode e script tag.pos args read).Makes N (IsWorded N) :=
    (makes_scriptedSignature _).bind fun args hargs => (makes_closeTag _).bind fun _ _ =>
      (makes_scriptedBodies hbodies _).bind fun read hread =>
        makes_pure (isWorded_scriptedNode e script tag.pos hargs hread)
  refine makes_next.bind fun tag _ => ?_
  cases script.refusal with
  | none =>
    cases script.skipped with
    | none => exact hargs tag
    | some word => exact (makes_skipIf _).bind fun _ _ => hargs tag
  | some message =>
    cases script.skipped with
    | none => exact makes_fail_bind _ _
    | some word => exact (makes_skipIf _).bind fun _ _ => makes_fail_bind _ _

theorem makes_customTag (e : Extension) : (customTag bodies e).Makes N (IsWorded N) := by
  unfold customTag
  split
  · exact makes_standardTag hbodies e _ _ _
  · exact makes_scriptedTag hbodies e _

theorem makes_of_builtin? {name : String} {p : Parser Node} (h : builtin? bodies name = some p) :
    p.Makes N (IsWorded N) := by
  have hall : ∀ p ∈ builtins bodies, p.Makes N (IsWorded N) := by
    simp only [builtins, List.forall_mem_cons]
    exact ⟨makes_conditional hbodies, makes_loop hbodies, makes_assignment hbodies,
      makes_block hbodies, makes_macroDefinition hbodies, makes_callBlock hbodies,
      makes_filterBlock hbodies, makes_parentTemplate, makes_includedTemplate,
      makes_importedTemplate, makes_importedNames, List.forall_mem_nil _⟩
  exact hall p (mem_of_builtin? h)

theorem makes_statementOver (env : Environment) :
    (statementOver env bodies).Makes N (IsWorded N) := by
  refine makes_peek.bind fun token _ => ?_
  have hnamed {p : Parser Node} (h : p.Makes N (IsWorded N)) : (do
      unless token.kind = .symbol do fail .missingTagName
      p : Parser Node).Makes N (IsWorded N) := by
    split
    · exact h
    · exact makes_fail_bind _ _
  split
  · next p hp => exact hnamed (makes_of_builtin? hbodies hp)
  · split
    · next e _ => exact hnamed (makes_customTag hbodies e)
    · exact hnamed (makes_failAt _ _)

/-- A repetition that reads nodes reads one more node, or stops. -/
theorem makes_nodeStep (env : Environment) {stop : List String} {nodes : List Node}
    (h : AreWorded N nodes) :
    (nodeStep env bodies stop nodes).Makes N (Step.Keeps (AreWorded N) (AreWorded N)) := by
  have hdone : AreWorded N nodes.reverse := fun node hnode => h node (List.mem_reverse.mp hnode)
  have hdata (token : Token) : AreWorded N (.data token.pos token.value :: nodes) :=
    areWorded_cons.mpr ⟨isWorded_of_children rfl rfl areWorded_nil, h⟩
  refine makes_peek.bind fun token _ => ?_
  split
  · split
    · exact makes_pure hdone
    · exact makes_fail_bind _ _
  · exact makes_next.bind fun _ _ => makes_pure (hdata token)
  · exact makes_next.bind fun _ _ => makes_pure (hdata token)
  · refine makes_next.bind fun _ _ => makes_peek.bind fun closing _ => ?_
    split
    · exact makes_fail_bind _ _
    · exact makes_expression.bind fun value hvalue => (makes_expect _ _).bind fun _ _ =>
        makes_pure (areWorded_cons.mpr
          ⟨isWorded_of_children rfl rfl (List.forall_mem_singleton.mpr hvalue), h⟩)
  · refine makes_next.bind fun _ _ => makes_peek.bind fun name _ => ?_
    split
    · exact makes_pure hdone
    · exact (makes_statementOver hbodies env).bind fun node hnode =>
        makes_pure (areWorded_cons.mpr ⟨hnode, h⟩)
  · exact makes_fail _

theorem makes_nodesOver (env : Environment) (stop : List String) :
    (nodesOver env bodies stop).Makes N (AreWorded N) :=
  makes_iterate (fun _ => makes_nodeStep hbodies env) areWorded_nil

end

theorem makeWorded_bodiesTo (env : Environment) (depth : Nat) :
    (bodiesTo env depth).MakeWorded N := by
  induction depth with
  | zero => exact fun _ => makes_fail _
  | succ depth ih => exact fun stop => makes_nodesOver ih env stop

end Statement

/-- What the parser of a template reads from words of a kind is worded. -/
theorem Parser.makes_root (env : Environment) {N : String → Prop} :
    (Parser.root env).Makes N (Node.AreWorded N) :=
  fun s => Statement.makeWorded_bodiesTo env (s.pending.length + 1) [] s

/-- In a template that has been read, the names of variables, of blocks and of parameters are names,
    and no variable has the name of a value. -/
theorem Template.isWorded_of_parse {env : Environment} {name source : String} {template : Template}
    (h : Template.parse env name source = .ok template) : Node.AreWorded IsName template.body := by
  unfold Template.parse at h
  split at h
  · cases h
  · next tokens htokens =>
    split at h
    · next body rest hbody =>
      cases h
      refine (Parser.makes_root env _ _ _ ⟨TokenStream.last_ofTokens, fun token htoken => ?_⟩ hbody).1
      exact isName_of_mem_tokenize htokens token (List.takeWhile_subset _ htoken)
    · cases h

/-- All names without quotes in the code of the tree are names. -/
def Node.IsNamed (root : Node) : Prop :=
  ∀ node : Node, node.Within root → ∀ name ∈ node.bareNames, IsNameText name

/-- All names without quotes in the code of the trees are names. -/
def Node.AreNamed (nodes : List Node) : Prop :=
  ∀ node ∈ nodes, node.IsNamed

/-- In a template that has been read, all names that its code has without quotes are names. -/
theorem Template.isNamed_of_parse {env : Environment} {name source : String} {template : Template}
    (h : Template.parse env name source = .ok template) : Node.AreNamed template.body :=
  fun root hroot node hnode name hname =>
    ((Template.isWorded_of_parse h root hroot node hnode).bare name hname).1

end TemplateManifest
