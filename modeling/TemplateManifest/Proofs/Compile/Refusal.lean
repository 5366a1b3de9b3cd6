import TemplateManifest.Proofs.Compile.Gathering
import TemplateManifest.Proofs.Template.StatementGrammar

/-!
Why nodes that have been read cannot be compiled: only because of a filter that is not known.
-/

namespace TemplateManifest

open Script Vocabulary

/-- The fault is that of a filter among some nodes that is not known. -/
def CodeContext.Refuses (cx : CodeContext) (nodes : Multiset Node) (fault : CompileFault) : Prop :=
  ∃ node ∈ nodes, ∃ name, node.filterName? = some name ∧ cx.filterIsAsync? name = none ∧
    fault = .ofFilter cx.env name

theorem CodeContext.Refuses.mono {cx : CodeContext} {nodes nodes' : Multiset Node}
    {fault : CompileFault} (h : cx.Refuses nodes fault) (hsubset : nodes ⊆ nodes') :
    cx.Refuses nodes' fault := by
  obtain ⟨node, hnode, hfilter⟩ := h
  exact ⟨node, hsubset hnode, hfilter⟩

namespace Coder

variable {α β : Type}

/-- The step fails only because of a filter among some nodes that is not known. -/
def FailsAt (step : Coder α) (cx : CodeContext) (nodes : List Node) : Prop :=
  ∀ s fault t, step s = .error fault t → cx.Refuses (Node.census nodes) fault

variable {step : Coder α} {cx : CodeContext} {nodes nodes' : List Node}

theorem FailsAt.mono (h : step.FailsAt cx nodes) (hsubset : Node.census nodes ⊆ Node.census nodes') :
    step.FailsAt cx nodes' :=
  fun s fault t hstep => (h s fault t hstep).mono hsubset

theorem FailsAt.bind {next : α → Coder β} (h : step.FailsAt cx nodes)
    (hnext : ∀ a, (next a).FailsAt cx nodes') : FailsAt (step >>= next) cx (nodes ++ nodes') := by
  intro s fault t hstep
  rw [Node.census_append]
  rcases bind_eq_error_iff.mp hstep with hfault | ⟨a, u, -, hfault⟩
  · exact (h s fault t hfault).mono (Multiset.subset_of_le (Multiset.le_add_right _ _))
  · exact (hnext a u fault t hfault).mono (Multiset.subset_of_le (Multiset.le_add_left _ _))

theorem failsAt_pure (a : α) : (pure a : Coder α).FailsAt cx nodes :=
  fun _ _ _ h => absurd h pure_ne_error

theorem FailsAt.bind_last {next : α → Coder β} (h : step.FailsAt cx nodes)
    (hnext : ∀ a, (next a).FailsAt cx []) : FailsAt (step >>= next) cx nodes := by
  have hbind := h.bind hnext
  rwa [List.append_nil] at hbind

theorem FailsAt.bind_pure {k : α → β} (h : step.FailsAt cx nodes) :
    FailsAt (step >>= fun a => pure (k a)) cx nodes :=
  h.bind_last fun a => failsAt_pure (k a)

/-- A step that does not fail. -/
theorem failsAt_of_total (h : ∀ s, ∃ a t, step s = .ok a t) : step.FailsAt cx [] := by
  intro s fault t hstep
  obtain ⟨a, u, ha⟩ := h s
  rw [ha] at hstep
  cases hstep

theorem failsAt_modify (f : CodeState → CodeState) :
    (modify f : Coder PUnit).FailsAt cx [] :=
  failsAt_of_total fun _ => ⟨_, _, rfl⟩

theorem FailsAt.inScope (h : step.FailsAt cx nodes) : FailsAt (Coder.inScope step) cx nodes :=
  (failsAt_modify _).bind fun _ => h.bind_last fun _ =>
    (failsAt_modify _).bind_pure

theorem FailsAt.isolated (h : step.FailsAt cx nodes) : FailsAt (Coder.isolated step) cx nodes := by
  have hget : (get : Coder CodeState).FailsAt cx [] := failsAt_of_total fun _ => ⟨_, _, rfl⟩
  exact hget.bind fun _ => (failsAt_modify _).bind fun _ => h.bind_last fun _ =>
    (failsAt_modify _).bind_pure

/-- More nodes are more reasons to fail. -/
theorem FailsAt.cons {node : Node} (h : step.FailsAt cx nodes) : step.FailsAt cx (node :: nodes) := by
  refine h.mono (Multiset.subset_of_le ?_)
  rw [Node.census_cons, ← Multiset.cons_add]
  exact Multiset.le_add_left _ _

theorem FailsAt.node {node : Node} (h : step.FailsAt cx node.children) : step.FailsAt cx [node] := by
  refine h.mono (Multiset.subset_of_le ?_)
  rw [Node.census_cons, Node.census_nil, add_zero]
  exact Multiset.le_cons_self _ _

theorem failsAt_fresh : fresh.FailsAt cx [] :=
  failsAt_of_total fun _ => ⟨_, _, rfl⟩

theorem failsAt_holder? (symbol : String) : (holder? symbol).FailsAt cx [] :=
  failsAt_of_total fun _ => ⟨_, _, rfl⟩

theorem failsAt_addBlock (b : PendingBlock) : (addBlock b).FailsAt cx [] :=
  failsAt_modify _

theorem failsAt_bind (symbol : String) (v : Variable) : (Coder.bind symbol v).FailsAt cx [] := by
  refine failsAt_of_total fun s => ?_
  unfold Coder.bind
  split <;> exact ⟨_, _, rfl⟩

theorem failsAt_freshAll (count : Nat) : (freshAll count).FailsAt cx [] := by
  induction count with
  | zero => exact failsAt_pure _
  | succ count ih => exact failsAt_fresh.bind fun _ => ih.bind_pure

theorem failsAt_variablesFor (symbols : List String) : (variablesFor symbols).FailsAt cx [] := by
  induction symbols with
  | nil => exact failsAt_pure _
  | cons symbol symbols ih =>
    refine (failsAt_holder? symbol).bind fun holder => ?_
    cases holder with
    | none => exact failsAt_fresh.bind fun _ => ih.bind_pure
    | some v =>
      have hpure : (pure v : Coder Variable).FailsAt cx [] := failsAt_pure v
      exact hpure.bind fun _ => ih.bind_pure

theorem failsAt_bindAll (entries : List (String × Variable)) : (bindAll entries).FailsAt cx [] := by
  induction entries with
  | nil => exact failsAt_pure _
  | cons entry entries ih => exact (failsAt_bind _ _).bind fun _ => ih

end Coder

namespace CodeContext

open Coder

variable {cx : CodeContext}

section Lists

theorem failsAt_expressions {nodes : List Node}
    (h : ∀ node ∈ nodes, (cx.expression node).FailsAt cx [node]) :
    (cx.expressions nodes).FailsAt cx nodes := by
  induction nodes with
  | nil => exact failsAt_pure _
  | cons node nodes ih =>
    obtain ⟨hnode, hnodes⟩ := List.forall_mem_cons.mp h
    rw [expressions]
    exact hnode.bind fun _ => (ih hnodes).bind_pure

theorem failsAt_entryCode {entries : List (Node × Node)}
    (hkeys : ∀ entry ∈ entries, (cx.expression entry.1).FailsAt cx [entry.1])
    (hvalues : ∀ entry ∈ entries, (cx.expression entry.2).FailsAt cx [entry.2]) :
    (cx.entryCode entries).FailsAt cx (entries.flatMap fun entry => [entry.1, entry.2]) := by
  induction entries with
  | nil => exact failsAt_pure _
  | cons entry entries ih =>
    obtain ⟨key, value⟩ := entry
    obtain ⟨hkey, hkeys'⟩ := List.forall_mem_cons.mp hkeys
    obtain ⟨hvalue, hvalues'⟩ := List.forall_mem_cons.mp hvalues
    by_cases hliteral : ∃ pos literal, key = .literal pos literal
    · obtain ⟨pos, literal, rfl⟩ := hliteral
      rw [entryCode]
      exact (hvalue.bind fun _ => (ih hkeys' hvalues').bind_pure).cons
    · rw [entryCode]
      · exact hkey.bind fun _ => hvalue.bind fun _ => (ih hkeys' hvalues').bind_pure
      · exact fun pos literal heq => hliteral ⟨pos, literal, heq⟩

theorem failsAt_keywordEntries {kwargs : List (String × Node)}
    (h : ∀ entry ∈ kwargs, (cx.expression entry.2).FailsAt cx [entry.2]) :
    (cx.keywordEntries kwargs).FailsAt cx (kwargs.map (·.2)) := by
  induction kwargs with
  | nil => exact failsAt_pure _
  | cons entry kwargs ih =>
    obtain ⟨hentry, hkwargs⟩ := List.forall_mem_cons.mp h
    rw [keywordEntries]
    exact hentry.bind fun _ => (ih hkwargs).bind_pure

theorem failsAt_keywordCode {kwargs : List (String × Node)}
    (h : ∀ entry ∈ kwargs, (cx.expression entry.2).FailsAt cx [entry.2]) :
    (cx.keywordCode kwargs).FailsAt cx (kwargs.map (·.2)) := by
  cases kwargs with
  | nil => exact failsAt_pure _
  | cons entry kwargs =>
    obtain ⟨hentry, hkwargs⟩ := List.forall_mem_cons.mp h
    rw [keywordCode]
    exact hentry.bind fun _ => (failsAt_keywordEntries hkwargs).bind_pure

theorem failsAt_comparedCode {rest : List (CompareOp × Node)}
    (h : ∀ entry ∈ rest, (cx.expression entry.2).FailsAt cx [entry.2]) (start : Expr) :
    (cx.comparedCode start rest).FailsAt cx (rest.map (·.2)) := by
  induction rest generalizing start with
  | nil => exact failsAt_pure _
  | cons entry rest ih =>
    obtain ⟨hentry, hrest⟩ := List.forall_mem_cons.mp h
    rw [comparedCode]
    exact hentry.bind fun _ => ih hrest _

theorem failsAt_optionalCode {node : Option Node}
    (h : ∀ n ∈ node, (cx.expression n).FailsAt cx [n]) :
    (cx.optionalCode node).FailsAt cx node.toList := by
  cases node with
  | none => exact failsAt_pure _
  | some node =>
    rw [optionalCode]
    exact h node rfl

theorem failsAt_statements {nodes : List Node}
    (h : ∀ node ∈ nodes, (cx.statement node).FailsAt cx [node]) :
    (cx.statements nodes).FailsAt cx nodes := by
  induction nodes with
  | nil => exact failsAt_pure _
  | cons node nodes ih =>
    obtain ⟨hnode, hnodes⟩ := List.forall_mem_cons.mp h
    rw [statements]
    exact hnode.bind fun _ => (ih hnodes).bind_pure

theorem failsAt_closureCode {bodies : List (List Node)}
    (h : ∀ body ∈ bodies, ∀ node ∈ body, (cx.statement node).FailsAt cx [node]) :
    (cx.closureCode bodies).FailsAt cx bodies.flatten := by
  induction bodies with
  | nil => exact failsAt_pure _
  | cons body bodies ih =>
    obtain ⟨hbody, hbodies⟩ := List.forall_mem_cons.mp h
    rw [closureCode]
    exact (failsAt_statements hbody).inScope.bind fun _ => (ih hbodies).bind_pure

end Lists

/-- A call of a filter fails if the filter is not known. -/
theorem failsAt_filter {pos : Position} {name : String} {target : Node} {args : List Node}
    {kwargs : List (String × Node)} (htarget : (cx.expression target).FailsAt cx [target])
    (hargs : ∀ node ∈ args, (cx.expression node).FailsAt cx [node])
    (hkwargs : ∀ entry ∈ kwargs, (cx.expression entry.2).FailsAt cx [entry.2]) :
    (cx.expression (.filter pos name target args kwargs)).FailsAt cx
      [.filter pos name target args kwargs] := by
  rw [expression]
  cases hname : cx.filterIsAsync? name with
  | none =>
    rintro s _ t ⟨⟩
    refine ⟨.filter pos name target args kwargs, ?_, name, rfl, hname, rfl⟩
    rw [Node.census_cons]
    exact Multiset.mem_cons_self _ _
  | some isAsync =>
    exact .node (htarget.bind fun _ => (failsAt_expressions hargs).bind fun _ =>
      (failsAt_keywordCode hkwargs).bind_pure)

/-- An expression cannot be compiled only because of a filter in it. -/
theorem failsAt_expression {node : Node} (h : node.IsExpression) :
    (cx.expression node).FailsAt cx [node] := by
  induction h with
  | literal =>
    rw [expression]
    exact failsAt_pure _
  | symbol =>
    rw [expression]
    refine .node ((failsAt_holder? _).bind fun holder => ?_)
    cases holder <;> exact failsAt_pure _
  | group _ ih =>
    rw [expression]
    exact .node ih.bind_pure
  | array _ ih =>
    rw [expression]
    exact .node (failsAt_expressions ih).bind_pure
  | dict _ _ ihkeys ihvalues =>
    rw [expression]
    exact .node (failsAt_entryCode ihkeys ihvalues).bind_pure
  | lookup _ _ ihtarget ihkey =>
    rw [expression]
    exact .node (ihtarget.bind fun _ => ihkey.bind_pure)
  | call _ _ _ ihcallee ihargs ihkwargs =>
    rw [expression]
    exact .node (ihcallee.bind fun _ => (failsAt_expressions ihargs).bind fun _ =>
      (failsAt_keywordCode ihkwargs).bind_pure)
  | filter _ _ _ ihtarget ihargs ihkwargs => exact failsAt_filter ihtarget ihargs ihkwargs
  | test _ _ ihtarget ihargs =>
    rw [expression]
    exact .node (ihtarget.bind fun _ => (failsAt_expressions ihargs).bind_pure)
  | unary _ ih =>
    rw [expression]
    exact .node ih.bind_pure
  | binary _ _ _ ihleft ihright =>
    rw [expression]
    exact .node (ihleft.bind fun _ => ihright.bind_pure)
  | compare _ _ ihfirst ihrest =>
    rw [expression]
    exact .node (ihfirst.bind fun _ => failsAt_comparedCode ihrest _)
  | inlineIf _ _ _ ihcond ihbody ihotherwise =>
    rw [expression]
    exact .node (ihcond.bind fun _ => ihbody.bind fun _ => (failsAt_optionalCode ihotherwise).bind_pure)

theorem failsAt_inclusionCode (target : Expr) (form : Inclusion) :
    (cx.inclusionCode target form).FailsAt cx [] := by
  have himport (withContext : Bool) : (cx.importCode target withContext).FailsAt cx [] :=
    failsAt_fresh.bind_pure
  have hmembers (module : Variable) (names : List (String × Option String)) :
      (membersCode module names).FailsAt cx [] := by
    induction names with
    | nil => exact failsAt_pure _
    | cons entry names ih =>
      exact failsAt_fresh.bind fun _ => (failsAt_bind _ _).bind fun _ => ih.bind_pure
  cases form with
  | parent => exact failsAt_fresh.bind_pure
  | part ignoreMissing => exact failsAt_fresh.bind_pure
  | module exportsName withContext =>
    exact (himport withContext).bind fun _ => (failsAt_bind _ _).bind_pure
  | members names withContext => exact (himport withContext).bind fun _ => (hmembers _ names).bind_pure

theorem failsAt_macroCode {isCaller : Bool} {params : List (String × Option Node)}
    {body : List Node} (hparams : Node.AreDefaults params)
    (hbody : ∀ node ∈ body, (cx.statement node).FailsAt cx [node]) :
    (cx.macroCode isCaller params (defaultCode cx params) (statements cx body)).FailsAt cx
      (params.filterMap (·.2) ++ body) := by
  have hdefaults : (defaultCode cx params).FailsAt cx (params.filterMap (·.2)) := by
    induction params with
    | nil => exact failsAt_pure _
    | cons param params ih =>
      obtain ⟨name, default⟩ := param
      cases default with
      | none =>
        rw [defaultCode]
        exact ih hparams
      | some node =>
        obtain ⟨hnode, hparams'⟩ := List.forall_mem_cons.mp hparams
        rw [defaultCode]
        exact (failsAt_expression hnode).bind fun _ => (ih hparams').bind_pure
  exact .inScope ((failsAt_bindAll _).bind fun _ => hdefaults.bind fun _ =>
    (failsAt_statements hbody).bind_pure)

theorem failsAt_outputCode {value : Node} (h : (cx.expression value).FailsAt cx [value]) :
    (cx.outputCode [value]).FailsAt cx [value] := by
  by_cases hdata : ∃ pos text, value = .data pos text
  · obtain ⟨pos, text, rfl⟩ := hdata
    rw [outputCode]
    exact failsAt_pure _
  · rw [outputCode]
    · exact h.bind_last fun _ => failsAt_pure _
    · exact fun pos text heq => hdata ⟨pos, text, heq⟩

theorem failsAt_capture {pos : Position} {body : List Node}
    (h : ∀ node ∈ body, (cx.statement node).FailsAt cx [node]) :
    (cx.expression (.capture pos body)).FailsAt cx [.capture pos body] := by
  rw [expression]
  exact .node (failsAt_statements h).inScope.bind_pure

/-- A statement cannot be compiled only because of a filter in it. -/
theorem failsAt_statement {node : Node} (h : node.IsStatement cx.env) :
    (cx.statement node).FailsAt cx [node] := by
  induction h with
  | data =>
    rw [statement]
    exact failsAt_pure _
  | output h =>
    rw [statement]
    exact .node (failsAt_outputCode (failsAt_expression h))
  | ifElse hcond _ _ ihbody ihotherwise =>
    rw [statement]
    exact .node ((failsAt_expression hcond).bind fun _ => (failsAt_statements ihbody).bind fun _ =>
      (failsAt_statements ihotherwise).bind_pure)
  | forEach hiterated _ _ ihbody ihotherwise =>
    rw [statement]
    refine .node ((failsAt_expression hiterated).bind fun _ => failsAt_fresh.bind fun _ =>
      failsAt_fresh.bind fun _ => failsAt_fresh.bind fun _ => FailsAt.bind (.inScope ?_) fun _ =>
        (failsAt_statements ihotherwise).bind_pure)
    exact (failsAt_freshAll _).bind fun _ => (failsAt_bindAll _).bind fun _ =>
      (failsAt_statements ihbody).bind_pure
  | assign h =>
    rw [statement]
    exact .node ((failsAt_expression h).bind_last fun _ => (failsAt_variablesFor _).bind fun _ =>
      (failsAt_bindAll _).bind_pure)
  | assignBody _ ih =>
    rw [statement]
    exact .node ((failsAt_capture ih).bind_last fun _ => (failsAt_variablesFor _).bind fun _ =>
      (failsAt_bindAll _).bind_pure)
  | block =>
    rw [statement]
    exact .cons ((failsAt_addBlock _).bind_pure)
  | macroDef hparams _ ihbody =>
    rw [statement]
    exact .node (failsAt_fresh.bind fun _ => (failsAt_macroCode hparams ihbody).bind_last fun _ =>
      (failsAt_bind _ _).bind_pure)
  | callBlock hcallee hargs hkwargs hparams _ ihbody =>
    rw [statement]
    refine .node (failsAt_outputCode ?_)
    rw [expression]
    refine .node ((failsAt_expression hcallee).bind fun _ =>
      (failsAt_expressions fun node hnode => failsAt_expression (hargs node hnode)).bind fun _ =>
        (failsAt_keywordCode (List.forall_mem_append.mpr ⟨fun entry hentry =>
          failsAt_expression (hkwargs entry hentry), List.forall_mem_singleton.mpr ?_⟩)).bind_pure)
    rw [expression]
    exact .node (failsAt_macroCode hparams ihbody)
  | filterBlock _ hargs hkwargs ihbody =>
    rw [statement]
    exact .node (failsAt_outputCode (failsAt_filter (failsAt_capture ihbody)
      (fun node hnode => failsAt_expression (hargs node hnode))
      fun entry hentry => failsAt_expression (hkwargs entry hentry)))
  | inclusion h =>
    rw [statement]
    exact .node ((failsAt_expression h).bind_last fun _ => failsAt_inclusionCode _ _)
  | extensionCall hsite hargs hkwargs _ ihbodies =>
    rw [statement]
    obtain ⟨e, he⟩ := Option.isSome_iff_exists.mp hsite
    rw [he]
    refine .node ?_
    rw [Node.children, List.append_assoc]
    exact (failsAt_expressions fun node hnode => failsAt_expression (hargs node hnode)).bind fun _ =>
      (failsAt_keywordCode fun entry hentry => failsAt_expression (hkwargs entry hentry)).bind fun _ =>
        (failsAt_closureCode ihbodies).bind_pure

theorem failsAt_rootCode {body : List Node} (h : Node.AreStatements cx.env body) :
    (cx.rootCode body).FailsAt cx body :=
  (failsAt_statements fun node hnode => failsAt_statement (h node hnode)).bind_pure

theorem failsAt_blockCode {b : PendingBlock} (h : Node.AreStatements cx.env b.body) :
    (cx.blockCode b).FailsAt cx b.body :=
  (failsAt_statements fun node hnode => failsAt_statement (h node hnode)).isolated.bind_pure

end CodeContext

end TemplateManifest
