import TemplateManifest.Proofs.Template.ExpressionOrder
import TemplateManifest.Proofs.Template.StatementLedger

/-!
Templates are read from the start to the end: the literals and symbols of a syntax tree, in written
order, stand one after the other. A walk meets them so exactly where no node is displaced. Main
statement: `Template.walk_follows_source_iff`.
-/

namespace TemplateManifest

namespace Statement

open TemplateManifest.Parser Node

section

variable {α : Type} {before : List Position} {R : α → Prop} {g : α → List Position}

theorem collects_closeTag {name : String} {next : Unit → Parser α}
    (h : ∀ a, (next a).Collects before R g) : (closeTag name >>= next).Collects before R g :=
  Consumes.collects_bind (adds_closeTag (m := 0)) h

theorem collects_expectKeyword {keyword : String} {next : Unit → Parser α}
    (h : ∀ a, (next a).Collects before R g) : (expectKeyword keyword >>= next).Collects before R g :=
  Consumes.collects_bind (adds_expectKeyword (m := 0)) h

theorem collects_names {what : String} {next : List String → Parser α}
    (h : ∀ a, (next a).Collects before R g) : (names what >>= next).Collects before R g :=
  Consumes.collects_bind (adds_names (m := 0)) h

theorem collects_expression_bind {next : Node → Parser α}
    (h : ∀ node, node.isPlain = true → (next node).Collects (before ++ node.trail) R g) :
    (expression >>= next).Collects before R g :=
  Collects.after_bind collects_expression h

/-- Where the literals and symbols in the defaults of parameters stand. -/
def trailDefaults (params : List (String × Option Node)) : List Position :=
  trailAll (params.filterMap (·.2))

theorem collects_parameters : parameters.Collects [] (fun _ => True) trailDefaults := by
  refine (consumes_expect (by decide)).collects_bind fun _ => ?_
  refine collects_commaSeparated (f := trailDefaults) (by decide) (fun params _ => ?_) trivial
  refine consumes_expectSymbol.collects_bind fun name => ?_
  refine consumes_skipOperator.collects_bind fun hasDefault => ?_
  split
  · exact collects_expression_bind fun default _ => collects_pure trivial (by simp [trailDefaults])
  · exact collects_pure trivial (by simp [trailDefaults])

theorem collects_optionalParameters {condition : Prop} [Decidable condition]
    {next : List (String × Option Node) → Parser α}
    (h : ∀ params, (next params).Collects (trailDefaults params) R g) :
    (if condition then parameters >>= next else pure [] >>= next).Collects [] R g := by
  split
  · exact collects_parameters.bind fun params _ => h params
  · exact h []

theorem collects_signature :
    (signature true).Collects [] (fun _ => True) Expression.Arguments.trail := by
  have hnested := Expression.collects_nested
  refine consumes_peek.collects_bind fun token => ?_
  split
  · exact (Expression.collects_callArguments hnested).mono fun _ _ => trivial
  · refine (collects_iterate (f := Expression.Arguments.trail) (P := Expression.Arguments.IsPlain)
      (fun args hargs => ?_) Expression.Arguments.isPlain_empty).mono fun _ _ => trivial
    refine consumes_peek.collects_bind fun token => ?_
    split
    · exact collects_pure hargs rfl
    · refine collects_unless (consumes_expect (by decide)) ?_
      exact (Expression.collects_argument hnested hargs).bind fun args' hargs' =>
        collects_pure hargs' rfl

end

/-- The parser reads a statement from its start to its end. -/
def Collects (p : Parser Node) : Prop :=
  p.Collects [] (fun _ => True) trail

/-- The parsers of bodies read from their start to their end. -/
def Bodies.Collect (bodies : Bodies) : Prop :=
  ∀ stop, (bodies stop).Collects [] (fun _ => True) trailAll

section

variable {bodies : Bodies} (hbodies : bodies.Collect)
include hbodies

theorem Bodies.Collect.bind {α : Type} {before : List Position} {R : α → Prop}
    {g : α → List Position} {stop : List String} {next : List Node → Parser α}
    (h : ∀ nodes, (next nodes).Collects (before ++ trailAll nodes) R g) :
    (bodies stop >>= next).Collects before R g :=
  (hbodies stop).after_bind fun nodes _ => h nodes

theorem collects_loop : Collects (loop bodies) := by
  refine consumes_next_or_stay.collects_bind fun token => collects_names fun targets => ?_
  refine collects_expectKeyword fun _ => collects_expression_bind fun iterated _ => ?_
  refine collects_closeTag fun _ => hbodies.bind fun body => ?_
  refine consumes_skipSymbol.collects_bind fun hasElse => ?_
  split
  · refine collects_closeTag fun _ => hbodies.bind fun otherwise => collects_closeTag fun _ => ?_
    exact collects_pure trivial (trail_of_children rfl rfl (by simp [children]))
  · exact collects_closeTag fun _ =>
      collects_pure trivial (trail_of_children rfl rfl (by simp [children]))

theorem collects_assignment : Collects (assignment bodies) := by
  refine consumes_next_or_stay.collects_bind fun token => collects_names fun targets => ?_
  refine consumes_skipOperator.collects_bind fun hasValue => ?_
  split
  · refine collects_expression_bind fun value _ => collects_closeTag fun _ => ?_
    exact collects_pure trivial (trail_of_children rfl rfl (by simp [children]))
  · refine collects_closeTag fun _ => hbodies.bind fun body => collects_closeTag fun _ => ?_
    have hcapture : (capture token.pos body).trail = trailAll body := trail_of_children rfl rfl rfl
    exact collects_pure trivial (trail_of_children rfl rfl (by simp [children, hcapture]))

theorem collects_block : Collects (block bodies) := by
  refine consumes_next_or_stay.collects_bind fun token => consumes_expectSymbol.collects_bind fun name => ?_
  refine collects_closeTag fun _ => hbodies.bind fun body => collects_expectKeyword fun _ => ?_
  refine consumes_skipSymbol.collects_bind fun _ => (consumes_expect (by decide)).collects_bind fun _ => ?_
  exact collects_pure trivial (trail_of_children rfl rfl rfl)

theorem collects_macroDefinition : Collects (macroDefinition bodies) := by
  refine consumes_next_or_stay.collects_bind fun token => consumes_expectSymbol.collects_bind fun name => ?_
  refine collects_parameters.after_bind fun params _ => collects_closeTag fun _ => ?_
  refine hbodies.bind fun body => collects_closeTag fun _ => ?_
  exact collects_pure trivial (trail_of_children rfl rfl (by simp [children, trailDefaults]))

/-- Where the literals and symbols of some branches stand. -/
def trailBranches (branches : List Branch) : List Position :=
  branches.flatMap fun b => b.cond.trail ++ trailAll b.body

omit hbodies in
theorem trail_chain (branches : List Branch) (otherwise : List Node) :
    trailAll (chain branches otherwise) = trailBranches branches ++ trailAll otherwise := by
  induction branches with
  | nil => rfl
  | cons b branches ih =>
    have hnode : (ifElse b.pos b.cond b.body (chain branches otherwise)).trail =
        b.cond.trail ++ (trailAll b.body ++ (trailBranches branches ++ trailAll otherwise)) :=
      trail_of_children rfl rfl (by simp [children, ih])
    calc trailAll (chain (b :: branches) otherwise)
      _ = (ifElse b.pos b.cond b.body (chain branches otherwise)).trail ++ trailAll [] :=
        trailAll_cons _ _
      _ = trailBranches (b :: branches) ++ trailAll otherwise := by
        rw [hnode]
        simp [trailBranches]

omit hbodies in
theorem trail_conditionalNode {branches : List Branch} (otherwise : List Node) (h : branches ≠ []) :
    (conditionalNode branches otherwise).trail = trailBranches branches ++ trailAll otherwise := by
  rw [← trail_chain]
  obtain ⟨b, branches, rfl⟩ := List.exists_cons_of_ne_nil h
  rfl

theorem collects_conditional : Collects (conditional bodies) := by
  refine consumes_next_or_stay.collects_bind fun first => ?_
  refine collects_iterate (f := fun state : List Branch × Token => trailBranches state.1)
    (I := fun _ => True) (fun state _ => ?_) trivial
  obtain ⟨branches, keyword⟩ := state
  refine collects_expression_bind fun cond _ => collects_closeTag fun _ => ?_
  refine hbodies.bind fun body => consumes_next_or_stay.collects_bind fun closing => ?_
  have htrail : trailBranches (branches ++ [⟨keyword.pos, cond, body⟩]) =
      trailBranches branches ++ cond.trail ++ trailAll body := by
    simp [trailBranches]
  split
  · exact collects_pure trivial htrail
  · split
    · refine collects_closeTag fun _ => hbodies.bind fun otherwise => collects_closeTag fun _ => ?_
      exact collects_pure trivial ((trail_conditionalNode otherwise (by simp)).trans (by rw [htrail]))
    · refine collects_closeTag fun _ => collects_pure trivial ?_
      exact (trail_conditionalNode [] (by simp)).trans (by rw [htrail, trailAll_nil, List.append_nil])

/-- The defaults of a call block's parameters stand before its call, and its body after it. -/
theorem collects_callBlock : Collects (callBlock bodies) := by
  refine consumes_next_or_stay.collects_bind fun token => consumes_peek.collects_bind fun paren => ?_
  refine collects_optionalParameters fun params => ?_
  refine collects_expression_bind fun called hcalled => collects_closeTag fun _ => ?_
  refine hbodies.bind fun body => collects_closeTag fun _ => ?_
  split
  · next pos callee args kwargs =>
    have hcall : (call pos callee args kwargs).trail =
        callee.trail ++ (trailAll args ++ trailAll (kwargs.map (·.2))) :=
      trail_of_children rfl (Option.isNone_iff_eq_none.mp hcalled) (by simp [children])
    have hblock : (call pos callee args
        (kwargs ++ [("caller", callerBody token.pos params body)])).trail =
          trailDefaults params ++ (callee.trail ++ (trailAll args ++ trailAll (kwargs.map (·.2))) ++
            trailAll body) :=
      trail_eq rfl (by simp [parts, swapped?, trailDefaults])
    exact collects_pure trivial (trail_of_children rfl rfl (by simp [children, hblock, hcall]))
  · exact collects_failAt _ _

/-- The arguments of a filter block stand before its body. -/
theorem collects_filterBlock : Collects (filterBlock bodies) := by
  refine consumes_next_or_stay.collects_bind fun token => consumes_peek.collects_bind fun nameToken => ?_
  refine Consumes.collects_bind Expression.balances_filterName fun name => ?_
  refine (Expression.collects_optionalArguments Expression.collects_nested).after_bind fun args _ => ?_
  refine collects_closeTag fun _ => hbodies.bind fun body => collects_closeTag fun _ => ?_
  have hfilter : (filter nameToken.pos name (capture token.pos body) args.positional args.keyword).trail =
      args.trail ++ trailAll body :=
    trail_eq rfl (by simp [parts, swapped?, Expression.Arguments.trail])
  exact collects_pure trivial (trail_of_children rfl rfl (by simp [children, hfilter]))

omit hbodies in
/-- A tag that names a template reads nothing else that is kept. -/
theorem collects_inclusion {form : Inclusion} {pos : Position} {template : Node} :
    (pure (.inclusion pos form template) : Parser Node).Collects ([] ++ template.trail) (fun _ => True)
      trail :=
  collects_pure trivial (trail_of_children rfl rfl (by simp [children]))

omit hbodies in
theorem collects_parentTemplate : Collects parentTemplate :=
  consumes_next_or_stay.collects_bind fun _ => collects_expression_bind fun _ _ =>
    collects_closeTag fun _ => collects_inclusion

omit hbodies in
theorem collects_includedTemplate : Collects includedTemplate := by
  refine consumes_next_or_stay.collects_bind fun token => collects_expression_bind fun template _ => ?_
  refine consumes_skipSymbol.collects_bind fun ignoreMissing => ?_
  split
  · exact collects_expectKeyword fun _ => collects_closeTag fun _ => collects_inclusion
  · exact collects_closeTag fun _ => collects_inclusion

omit hbodies in
theorem collects_importedTemplate : Collects importedTemplate := by
  refine consumes_next_or_stay.collects_bind fun token => collects_expression_bind fun template _ => ?_
  refine collects_expectKeyword fun _ => consumes_expectSymbol.collects_bind fun target => ?_
  refine Consumes.collects_bind (adds_withContext (m := 0)) fun context => ?_
  exact collects_closeTag fun _ => collects_inclusion

omit hbodies in
theorem collects_importedNames : Collects importedNames := by
  refine consumes_next_or_stay.collects_bind fun token => collects_expression_bind fun template _ => ?_
  refine collects_expectKeyword fun _ => ?_
  refine Collects.bind (P := fun _ => True) (f := fun _ => [] ++ template.trail)
    (collects_iterate (I := fun _ => True) (f := fun _ => [] ++ template.trail) (fun names _ => ?_)
      trivial) fun form _ => ?_
  · refine Consumes.collects_bind (adds_withContext (m := 0)) fun context => ?_
    split
    · exact collects_pure trivial rfl
    · refine consumes_peek.collects_bind fun token => ?_
      split
      · split
        · exact (consumes_fail _).bind_false
        · exact collects_pure trivial rfl
      · refine collects_unless (consumes_expect (by decide)) ?_
        refine consumes_expectSymbol.collects_bind fun name => ?_
        refine consumes_skipSymbol.collects_bind fun hasAlias => ?_
        split
        · exact consumes_expectSymbol.collects_bind fun _ => collects_pure trivial rfl
        · exact collects_pure trivial rfl
  · exact collects_closeTag fun _ => collects_inclusion

theorem collects_standardTag (e : Extension) (hasBody : Bool) (identity : Identity) (isAsync : Bool) :
    Collects (standardTag bodies e hasBody identity isAsync) := by
  refine consumes_next_or_stay.collects_bind fun token => collects_signature.after_bind fun args _ => ?_
  refine collects_closeTag fun _ => ?_
  split
  · refine hbodies.bind fun body => collects_closeTag fun _ => collects_pure trivial ?_
    exact trail_of_children rfl rfl (by simp [children, Expression.Arguments.trail])
  · refine collects_pure trivial ?_
    exact trail_of_children rfl rfl (by simp [children, Expression.Arguments.trail])

theorem collects_of_builtin? {name : String} {p : Parser Node} (h : builtin? bodies name = some p) :
    Collects p := by
  have hall : ∀ p ∈ builtins bodies, Collects p := by
    simp only [builtins, List.forall_mem_cons]
    exact ⟨collects_conditional hbodies, collects_loop hbodies, collects_assignment hbodies,
      collects_block hbodies, collects_macroDefinition hbodies, collects_callBlock hbodies,
      collects_filterBlock hbodies, collects_parentTemplate, collects_includedTemplate,
      collects_importedTemplate, collects_importedNames, List.forall_mem_nil _⟩
  exact hall p (mem_of_builtin? h)

end

section

variable {env : Environment} (henv : ∀ e ∈ env.extensions, e.IsStandard)
include henv

section

variable {bodies : Bodies} (hbodies : bodies.Collect)
include hbodies

theorem collects_statementOver : Collects (statementOver env bodies) := by
  refine consumes_peek.collects_bind fun token => consumes_unless_fail fun _ => ?_
  split
  · next p hp => exact collects_of_builtin? hbodies hp
  · split
    · next e he =>
      obtain ⟨hasBody, identity, isAsync, hform⟩ := henv e (List.mem_of_find?_eq_some he)
      rw [customTag, hform]
      exact collects_standardTag hbodies e hasBody identity isAsync
    · exact collects_failAt _ _

/-- One more node is read after those before it. -/
theorem collects_nodeStep {stop : List String} {nodes : List Node} :
    (nodeStep env bodies stop nodes).Collects (trailAll nodes.reverse)
      (Step.Keeps (fun _ => True) fun _ => True)
      (Step.trail (fun nodes => trailAll nodes.reverse) trailAll) := by
  refine consumes_peek.collects_bind fun token => ?_
  split
  · exact consumes_unless_fail fun _ => collects_pure trivial rfl
  · refine consumes_next_or_stay.collects_bind fun _ => collects_pure trivial ?_
    simp [Step.trail]
  · refine consumes_next_or_stay.collects_bind fun _ => collects_pure trivial ?_
    simp [Step.trail]
  · refine consumes_next_or_stay.collects_bind fun _ => consumes_peek.collects_bind fun _ => ?_
    refine consumes_if_fail fun _ => collects_expression_bind fun value _ => ?_
    refine (consumes_expect (by decide)).collects_bind fun _ => collects_pure trivial ?_
    have houtput : (output token.pos [value]).trail = value.trail :=
      trail_of_children rfl rfl (by simp [children])
    simp [Step.trail, houtput]
  · refine consumes_next_or_stay.collects_bind fun _ => consumes_peek.collects_bind fun name => ?_
    split
    · exact collects_pure trivial rfl
    · exact (collects_statementOver henv hbodies).after_bind fun node _ =>
        collects_pure trivial (by simp [Step.trail])
  · exact collects_fail _

theorem collects_nodesOver (stop : List String) :
    (nodesOver env bodies stop).Collects [] (fun _ => True) trailAll :=
  collects_iterate (f := fun nodes : List Node => trailAll nodes.reverse) (I := fun _ => True)
    (fun _ _ => collects_nodeStep henv hbodies) trivial

end

theorem collect_bodies : (bodies env).Collect := by
  have hto (depth : Nat) : (bodiesTo env depth).Collect := by
    induction depth with
    | zero => exact fun _ => collects_fail _
    | succ depth ih => exact fun stop => collects_nodesOver henv ih stop
  exact fun stop s => hto (s.pending.length + 1) stop s

end

end Statement

/-- The literals and symbols of a tree stand, in written order, where words of code stand among the
    tokens of its source. -/
theorem Parser.trailAll_sublist_of_root {env : Environment} (henv : ∀ e ∈ env.extensions, e.IsStandard)
    {tokens : List Token} {body : List Node} {rest : TokenStream}
    (h : Parser.root env (TokenStream.ofTokens tokens) = .ok body rest) :
    (Node.trailAll body).Sublist (codePlaces tokens) := by
  obtain ⟨consumed, hstream, -, hbody⟩ :=
    Statement.collect_bodies henv [] _ body rest TokenStream.last_ofTokens trivial h
  have hpending : (TokenStream.ofTokens tokens).pending = consumed ++ rest.pending := by
    rw [hstream, TokenStream.after]
  have hread : (consumed ++ rest.pending).Sublist tokens :=
    hpending ▸ (List.takeWhile_prefix _).sublist
  exact hbody.trans (codePlaces_sublist ((List.sublist_append_left _ _).trans hread))

/-- The literals and symbols of a template, in written order, stand one after the other. A walk meets
    the same ones, and in this order exactly if no node of the template is displaced. -/
theorem Template.walk_follows_source_iff {env : Environment} {name source : String} {template : Template}
    (henv : ∀ e ∈ env.extensions, e.IsStandard) (h : Template.parse env name source = .ok template) :
    Node.AreOrdered (Node.written template.body) ∧
      (template.walk.filter Node.isAtom).Perm (Node.written template.body) ∧
      (Node.AreOrdered (template.walk.filter Node.isAtom) ↔
        ∀ node ∈ template.walk, ¬ node.IsDisplaced) := by
  unfold Template.parse at h
  split at h
  · cases h
  · next tokens htokens =>
    split at h <;> cases h
    next body rest hroot =>
      have hplaces := (tokenize_codePlaces htokens).sublist (Parser.trailAll_sublist_of_root henv hroot)
      have hordered : Node.AreOrdered (Node.written body) := List.pairwise_map.mp hplaces
      exact ⟨hordered, Node.perm_atoms_written body, Node.areOrdered_atoms_iff hordered⟩

/-- A call block whose parameters have no defaults is walked as it is written. -/
theorem Template.walk_follows_source_iff_call_block :
    ∃ template, Template.parse {} "t" "\x7b% call(x) f(y) %\x7d\x7b\x7b z \x7d\x7d\x7b% endcall %\x7d" =
      .ok template ∧ Node.AreOrdered (template.walk.filter Node.isAtom) := by
  have hany : ((Template.parse {} "t"
      "\x7b% call(x) f(y) %\x7d\x7b\x7b z \x7d\x7d\x7b% endcall %\x7d").toOption.any fun template =>
        template.walk.all fun node => !decide node.IsDisplaced) = true := by
    decide +kernel
  obtain ⟨template, htemplate, hall⟩ := exists_eq_ok_of_any hany
  refine ⟨template, htemplate, (Template.walk_follows_source_iff (List.forall_mem_nil _)
    htemplate).2.2.mpr fun node hnode => ?_⟩
  simpa using List.all_eq_true.mp hall node hnode

/-- A walk meets the condition of a conditional expression first, although it is written after
    what the expression gives. -/
theorem Template.exists_walk_against_source :
    ∃ template, Template.parse {} "t" "\x7b\x7b a if b \x7d\x7d" = .ok template ∧
      ¬ Node.AreOrdered (template.walk.filter Node.isAtom) := by
  have hany : ((Template.parse {} "t" "\x7b\x7b a if b \x7d\x7d").toOption.any fun template =>
      !decide (Node.AreOrdered (template.walk.filter Node.isAtom))) = true := by
    decide +kernel
  obtain ⟨template, htemplate, hordered⟩ := exists_eq_ok_of_any hany
  exact ⟨template, htemplate, by simpa using hordered⟩

end TemplateManifest
