import TemplateManifest.Proofs.Compile.Pieces
import TemplateManifest.Proofs.Compile.Scope

/-!
Code generation gives the code of the flow of a template. From a state that agrees with the
visible bindings it gives code for the flow under these bindings, and ends in a state that agrees
with what is visible then.
-/

namespace TemplateManifest

open Script Vocabulary Coder

/-- A part of code generation goes from one state to another one as some steps of a template go
    from what is visible before them to what is visible after them. -/
structure Moves (steps : List Outline) (s t : CodeState) : Prop where
  agrees : ∀ σ, Agrees s σ → Agrees t (Outline.flowAll steps σ).2
  outer : t.scopes.tail = s.scopes.tail
  pending : t.pending = s.pending ++ Outline.blocks steps

/-- It also gives a piece of code for the steps. -/
structure Carries (known : List Variable) (steps : List Outline) (s : CodeState) (p : Piece)
    (t : CodeState) : Prop extends Moves steps s t where
  emits : ∀ σ, Agrees s σ → Emits known (Outline.flowAll steps σ).1 p

/-- The steps also define nothing that is visible after them. -/
structure Evaluates (known : List Variable) (steps : List Outline) (s : CodeState) (p : Piece)
    (t : CodeState) : Prop extends Carries known steps s p t where
  scopes : t.scopes = s.scopes

section

variable {known known' : List Variable} {steps steps' : List Outline} {s t u : CodeState}
  {p p' : Piece} {us us' : List Use} {body body' : List Stmt}

theorem Moves.nil : Moves [] s s :=
  ⟨fun _ h => h, rfl, (List.append_nil _).symm⟩

theorem Moves.append (h : Moves steps s t) (h' : Moves steps' t u) :
    Moves (steps ++ steps') s u := by
  refine ⟨fun σ hσ => ?_, h'.outer.trans h.outer, ?_⟩
  · rw [Outline.flowAll_append]
    exact h'.agrees _ (h.agrees σ hσ)
  · rw [h'.pending, h.pending, Outline.blocks_append, List.append_assoc]

theorem Carries.done : Carries known [] s (.code []) s :=
  ⟨.nil, fun _ _ => .done⟩

/-- The piece becomes another one for the same flow. -/
theorem Carries.map (h : Carries known steps s p t)
    (hp : ∀ flow, Emits known flow p → Emits known' flow p') : Carries known' steps s p' t :=
  ⟨h.toMoves, fun σ hσ => hp _ (h.emits σ hσ)⟩

theorem Evaluates.map (h : Evaluates known steps s p t)
    (hp : ∀ flow, Emits known flow p → Emits known' flow p') : Evaluates known' steps s p' t :=
  ⟨h.toCarries.map hp, h.scopes⟩

theorem Carries.append {p₁ p₂ : Piece} (h : Carries known steps s p₁ t)
    (h' : Carries known steps' t p₂ u)
    (hp : ∀ flow flow', Emits known flow p₁ → Emits known flow' p₂ →
      Emits known (flow ++ flow') p) :
    Carries known (steps ++ steps') s p u := by
  refine ⟨h.toMoves.append h'.toMoves, fun σ hσ => ?_⟩
  rw [Outline.flowAll_append]
  exact hp _ _ (h.emits σ hσ) (h'.emits _ (h.agrees σ hσ))

theorem Carries.code_append (h : Carries known steps s (.code body) t)
    (h' : Carries known steps' t (.code body') u) :
    Carries known (steps ++ steps') s (.code (body ++ body')) u :=
  h.append h' fun _ _ => Emits.code_append

theorem Evaluates.nil : Evaluates known [] s (.uses []) s :=
  ⟨⟨.nil, fun _ _ => .none⟩, rfl⟩

theorem Evaluates.append (h : Evaluates known steps s (.uses us) t)
    (h' : Evaluates known steps' t (.uses us') u) :
    Evaluates known (steps ++ steps') s (.uses (us ++ us')) u :=
  ⟨h.toCarries.append h'.toCarries fun _ _ => Emits.uses_append, h'.scopes.trans h.scopes⟩

theorem Evaluates.of_eq (h : Evaluates known steps s (.uses us) t) (hus : us' = us) :
    Evaluates known steps s (.uses us') t :=
  hus ▸ h

/-- A statement that only evaluates an expression. -/
theorem Carries.step {stmt : Stmt} {value : Expr}
    (h : Carries known steps s (.uses value.notable) t) (hs : Does known stmt value) :
    Carries known steps s (.code [stmt]) t := by
  refine h.map fun flow hflow => ?_
  rw [← List.append_nil flow]
  exact .step hs hflow .done

/-- A value that is put out. -/
theorem Carries.outputValue {value : Expr} {autoescape : Bool}
    (h : Evaluates known steps s (.uses value.notable) t) :
    Carries known steps s (.code [Vocabulary.outputValue value autoescape]) t :=
  (h.toCarries.map fun _ hvalue => hvalue.of_notable_eq (by simp)).step
    (.append (by simp [Variable.isCommon, commonNames]))

theorem Carries.data (text : String) : Carries known [] s (.code (dataCode text)) s :=
  ⟨.nil, fun _ _ => .dataCode text⟩

/-- The default of a parameter, before those of other ones. -/
theorem Evaluates.setDefault {e : Expr} {defaults : List (String × Expr)}
    (h : Evaluates [] steps s (.uses e.notable) t) (param : String)
    (h' : Evaluates [.named "kwargs"] steps' t (.code (defaultSettings defaults)) u) :
    Evaluates [.named "kwargs"] (steps ++ steps') s
      (.code (defaultSettings ((param, e) :: defaults))) u := by
  have hkwargs : Emits [.named "kwargs"] [] (.uses (name "kwargs").notable) :=
    .of_variable (List.mem_cons_self ..)
  have hvalue : Evaluates [.named "kwargs"] steps s (.uses e.notable) t :=
    h.map fun _ he => he.mono (List.nil_subset _)
  refine ⟨hvalue.toCarries.append h'.toCarries fun flow flow' hflow hflow' => ?_,
    h'.scopes.trans h.scopes⟩
  refine .step .run ?_ hflow'
  have hgiven := hkwargs.uses_append hkwargs
  exact (hgiven.uses_append hflow).of_notable_eq (by simp (disch := decide))

end

section

variable {known : List Variable} {steps inside other : List Outline} {s t u v : CodeState}
  {p : Piece} {body otherwise : List Stmt}

theorem Moves.branch (h : Moves inside s t) (h' : Moves other t u) :
    Moves [.branch inside other] s u := by
  refine ⟨fun σ hσ => ?_, h'.outer.trans h.outer, ?_⟩
  · rw [Outline.flowAll_singleton]
    exact h'.agrees _ (h.agrees σ hσ)
  · rw [h'.pending, h.pending]
    simp [Outline.blocks, Outline.leavesAll, Outline.leaves]

/-- A branch is no scope. -/
theorem Carries.branch {cond : Expr} (hcond : Evaluates known steps s (.uses cond.notable) t)
    (hbody : Carries known inside t (.code body) u) :
    Carries known (steps ++ [.branch inside []]) s (.code [.branch cond body]) u := by
  refine ⟨hcond.toMoves.append (.branch hbody.toMoves .nil), fun σ hσ => ?_⟩
  rw [Outline.flowAll_append, Outline.flowAll_singleton]
  exact .branch (hcond.emits σ hσ) (hbody.emits _ (hcond.agrees σ hσ)) .done

theorem Carries.branchElse {cond : Expr}
    (hcond : Evaluates known steps s (.uses cond.notable) t)
    (hbody : Carries known inside t (.code body) u)
    (hother : Carries known other u (.code otherwise) v) :
    Carries known (steps ++ [.branch inside other]) s
      (.code [.branchElse cond body otherwise]) v := by
  refine ⟨hcond.toMoves.append (.branch hbody.toMoves hother.toMoves), fun σ hσ => ?_⟩
  have hτ := hcond.agrees σ hσ
  rw [Outline.flowAll_append, Outline.flowAll_singleton]
  exact .branchElse (hcond.emits σ hσ) (hbody.emits _ hτ) (hother.emits _ (hbody.agrees _ hτ)) .done

/-- A body that becomes a function has a scope of its own. -/
theorem Evaluates.closure (cx : CodeContext) {step : Coder (List Stmt)}
    (h : inScope step s = .ok body t)
    (hbody : ∀ {s t : CodeState}, step s = .ok body t → Carries [] steps s (.code body) t) :
    Evaluates known [.function [] [] steps] s (.uses (cx.closure body).notable) t := by
  obtain ⟨u, hstep, rfl⟩ := inScope_eq_ok_iff.mp h
  have hbody := hbody hstep
  have hscopes : u.scopes.tail = s.scopes := hbody.outer
  refine ⟨⟨⟨fun σ hσ => ?_, by rw [hscopes], ?_⟩, fun σ hσ => ?_⟩, hscopes⟩
  · rw [Outline.flowAll_singleton]
    exact hσ.of_scopes hscopes (hbody.agrees σ hσ.opened_scope).temps
  · rw [hbody.pending]
    simp [Outline.blocks, Outline.leavesAll, Outline.leaves]
  · rw [Outline.flowAll_singleton]
    exact .closure (hbody.emits σ hσ.opened_scope)

end

theorem positionalNames_parameterForms (params : List (String × Option Node)) :
    positionalNames (parameterForms params) = (params.filter fun p => p.2.isNone).map (·.1) := by
  induction params with
  | nil => rfl
  | cons param params ih =>
    obtain ⟨p, default⟩ := param
    cases default <;> simpa [positionalNames, parameterForms] using ih

/-- No variable holds a parameter with a default. -/
theorem holder?_parameterBinding (params : List (String × Bool)) (name : String) :
    Visible.holder? (params.map parameterBinding).reverse name =
      Visible.holder?
        ((positionalNames params).map fun p => (p, some (.parameter p))).reverse name := by
  induction params with
  | nil => rfl
  | cons param params ih =>
    obtain ⟨p, hasDefault⟩ := param
    rw [List.map_cons, List.reverse_cons, Visible.holder?_append, ih]
    cases hasDefault with
    | true =>
      have hnone : Visible.holder? [parameterBinding (p, true)] name = none := by
        simp [Visible.holder?, parameterBinding]
      rw [hnone, Option.or_none]
      rfl
    | false =>
      change _ = Visible.holder? (List.reverse ((_, _) :: List.map _ (positionalNames params))) name
      rw [List.reverse_cons, Visible.holder?_append]
      rfl

namespace CodeContext

variable {cx : CodeContext}

/-- A macro sees its parameters without defaults while its defaults are computed, and all of them
    in its body. -/
theorem evaluates_macroCode {known : List Variable} {isCaller : Bool}
    {params : List (String × Option Node)} {nodes : List Node}
    {defaults : Coder (List (String × Expr))} {body : Coder (List Stmt)} {s t : CodeState}
    {code : Expr}
    (hdefaults : ∀ {s t : CodeState} {code : List (String × Expr)}, defaults s = .ok code t →
      Evaluates [.named "kwargs"] (Node.outlineDefaults params) s (.code (defaultSettings code)) t)
    (hbody : ∀ {s t : CodeState} {code : List Stmt}, body s = .ok code t →
      Carries [] (Node.outlineAll nodes) s (.code code) t)
    (h : cx.macroCode isCaller params defaults body s = .ok code t) :
    Evaluates known
      [.function (parameterForms params) (Node.outlineDefaults params) (Node.outlineAll nodes)] s
      (.uses code.notable) t := by
  obtain ⟨u, ds, v, b, w, hbind, hds, hb, rfl, rfl⟩ := macroCode_eq_ok_iff.mp h
  rw [← positionalNames_parameterForms] at hbind ⊢
  replace hds := hdefaults hds
  replace hb := hbody hb
  have hvisible (name : String) := holder?_parameterBinding (parameterForms params) name
  generalize parameterForms params = forms at *
  have hheld : (positionalNames forms).map (fun p => (p, Variable.param p)) =
      asVariables ((positionalNames forms).map fun p => (p, .parameter p)) := by
    simp [asVariables, Holder.variable]
  have hentries (name : String) :
      Visible.holder? ((positionalNames forms).map fun p => (p, some (.parameter p))).reverse name =
        Visible.holder? (heldBy ((positionalNames forms).map fun p => (p, .parameter p))).reverse
          name := by
    rw [heldBy, List.map_map]
    rfl
  rw [hheld] at hbind
  obtain ⟨-, hpending, hscopes⟩ := bindAll_keeps hbind
  have hbefore {σ : Scoping} (hσ : Agrees s σ) := hσ.opened_scope.bindAll hentries hbind
  have hinside {σ : Scoping} (hσ : Agrees s σ) := Agrees.of_scopes
    (hσ.opened_scope.bindAll (fun name => (hvisible name).trans (hentries name)) hbind) hds.scopes
    (hds.agrees _ (hbefore hσ)).temps
  have hscopes : w.scopes.tail = s.scopes := by
    rw [hb.outer, hds.outer, hscopes]
    rfl
  refine ⟨⟨⟨fun σ hσ => ?_, by rw [hscopes], ?_⟩, fun σ hσ => ?_⟩, hscopes⟩
  · rw [Outline.flowAll_singleton]
    exact hσ.of_scopes hscopes (hb.agrees _ (hinside hσ)).temps
  · rw [hb.pending, hds.pending, hpending]
    simp [Outline.blocks, Outline.leavesAll, Outline.leaves]
  · rw [Outline.flowAll_singleton]
    exact .makeMacro (hds.emits _ (hbefore hσ)) (hb.emits _ (hinside hσ))

end CodeContext

section

variable {known : List Variable} {steps inside other : List Outline} {s t u w : CodeState}
  {v : Variable}

/-- A temporary that holds no name. -/
theorem Moves.unnamed (hfresh : fresh s = .ok v t) : Moves [.define none []] s t := by
  obtain ⟨rfl, rfl⟩ := fresh_eq_ok hfresh
  exact ⟨fun σ hσ => hσ.fresh 1, rfl, (List.append_nil _).symm⟩

theorem Moves.parent : Moves [.parent] s s :=
  ⟨fun _ h => h, rfl, (List.append_nil _).symm⟩

/-- A temporary that gets a value and then holds a name. -/
theorem Moves.define {name : String} {a : Unit} (hfresh : fresh s = .ok v t)
    (hinner : Moves inside t u) (hbind : Coder.bind name v u = .ok a w) :
    Moves [.define (some name) inside] s w := by
  obtain ⟨rfl, rfl⟩ := fresh_eq_ok hfresh
  obtain ⟨-, hpending, hscopes⟩ := bind_keeps hbind
  refine ⟨fun σ hσ => ?_, hscopes.trans hinner.outer, ?_⟩
  · rw [hσ.temps] at hbind
    rw [Outline.flowAll_singleton]
    exact (hinner.agrees _ (hσ.fresh 1)).bind (x := .temporary (σ.temps + 1)) hbind
  · rw [hpending, hinner.pending]
    simp [Outline.blocks, Outline.leavesAll, Outline.leaves]

/-- A variable gets a value and is published under the name that it then holds. -/
theorem Carries.define {name : String} {value : Expr} {a : Unit} (hfresh : fresh s = .ok v t)
    (hvalue : Evaluates known inside t (.uses value.notable) u)
    (hbind : Coder.bind name v u = .ok a w) :
    Carries known [.define (some name) inside] s
      (.code (.declare v (some value) :: publish name v)) w := by
  refine ⟨.define hfresh hvalue.toMoves hbind, fun σ hσ => ?_⟩
  obtain ⟨rfl, rfl⟩ := fresh_eq_ok hfresh
  rw [Outline.flowAll_singleton, hσ.temps]
  have hcode := hvalue.emits _ (hσ.fresh 1)
  exact .declare hcode (.publish (List.mem_cons_self ..))

/-- Names get a value in the variables that hold them. -/
theorem Carries.assign {targets : List String} {value : Expr} {vs : List Variable} {a : Unit}
    (hvalue : Evaluates known steps s (.uses value.notable) t)
    (hvs : variablesFor targets t = .ok vs u) (hbind : bindAll (targets.zip vs) u = .ok a w) :
    Carries known (steps ++ [.assign targets]) s
      (.code (vs.map (fun v => .declare v none) ++ .assignAll vs value ::
        (targets.zip vs).flatMap fun (target, v) => publish target v)) w := by
  have hholders {σ : Scoping} (hσ : Agrees t σ) : vs = (σ.holders targets).1.map Holder.variable ∧
      u = { t with temps := (σ.holders targets).2 } := hσ.variablesFor hvs
  obtain ⟨-, hpending, hscopes⟩ := bindAll_keeps hbind
  have hkeeps := variablesFor_keeps hvs
  have hmoves : Moves [.assign targets] t w := by
    refine ⟨fun σ hσ => ?_, by rw [hscopes, hkeeps], ?_⟩
    · obtain ⟨rfl, rfl⟩ := hholders hσ
      have hzip : targets.zip ((σ.holders targets).1.map Holder.variable) =
          asVariables (targets.zip (σ.holders targets).1) := by
        rw [asVariables, List.zip_map_right]
        rfl
      rw [hzip] at hbind
      rw [Outline.flowAll_singleton]
      have hu : Agrees { t with temps := (σ.holders targets).2 }
          { σ with temps := (σ.holders targets).2 } := hσ.of_scopes rfl rfl
      refine hu.bindAll (fun name => ?_) hbind
      rw [heldBy, List.zip_map_right]
      rfl
    · rw [hpending, hkeeps]
      simp [Outline.blocks, Outline.leavesAll, Outline.leaves]
  refine ⟨hvalue.toMoves.append hmoves, fun σ hσ => ?_⟩
  rw [Outline.flowAll_append, Outline.flowAll_singleton]
  obtain ⟨rfl, -⟩ := hholders (hvalue.agrees σ hσ)
  rw [List.map_map]
  refine .assign (hvalue.emits σ hσ) (.publishAll fun entry hentry => ?_)
  exact List.mem_append_left _ (List.of_mem_zip hentry).2

/-- The targets of a loop, in new temporaries, are visible in its body only. -/
theorem loopBody_eq_ok {targets : List String} {step : Coder (List Stmt)}
    {result : List Variable × List Stmt}
    (h : inScope (do
      let holders ← freshAll targets.length
      bindAll (targets.zip holders)
      return (holders, ← step)) s = .ok result t)
    (hstep : ∀ {s t : CodeState} {body : List Stmt}, step s = .ok body t →
      Carries known inside s (.code body) t) :
    result.1 = (List.range' (s.temps + 1) targets.length).map .temp ∧ t.scopes = s.scopes ∧
      t.pending = s.pending ++ Outline.blocks inside ∧ ∀ σ, Agrees s σ →
        let entries := targets.zip (List.range' (s.temps + 1) targets.length)
        let σ' : Scoping :=
          Scoping.bind (entries.map fun (target, index) => (target, some (.temporary index)))
            { σ with temps := σ.temps + targets.length }
        Emits known (Outline.flowAll inside σ').1 (.code result.2) ∧
          Agrees t { σ with temps := (Outline.flowAll inside σ').2.temps } := by
  obtain ⟨holders, body⟩ := result
  obtain ⟨y, z, x, hholders, hbind, hbody, rfl⟩ := inScope_targets_eq_ok_iff.mp h
  obtain ⟨rfl, rfl⟩ := freshAll_eq_ok hholders
  replace hbody := hstep hbody
  obtain ⟨-, hpending, hscopes⟩ := bindAll_keeps hbind
  have hscopes : x.scopes.tail = s.scopes := hbody.outer.trans hscopes
  refine ⟨rfl, hscopes, by rw [hbody.pending, hpending], fun σ hσ => ?_⟩
  let held : List (String × Holder) :=
    (targets.zip (List.range' (s.temps + 1) targets.length)).map
      fun (target, index) => (target, .temporary index)
  have hheld : targets.zip ((List.range' (s.temps + 1) targets.length).map .temp) =
      asVariables held := by
    rw [asVariables, List.map_map, List.zip_map_right]
    rfl
  have hinside : Agrees z (Scoping.bind
      ((targets.zip (List.range' (s.temps + 1) targets.length)).map
        fun (target, index) => (target, some (.temporary index)))
      { σ with temps := σ.temps + targets.length }) := by
    rw [hheld] at hbind
    refine (hσ.opened_scope.fresh targets.length).bindAll (fun name => ?_) hbind
    rw [heldBy, List.map_map]
    rfl
  exact ⟨hbody.emits _ hinside, hσ.of_scopes hscopes (hbody.agrees _ hinside).temps⟩

/-- A loop has a scope for its targets and its body, and none for the other part. -/
theorem Carries.loop (hasElse : Bool) {targets : List String} {iterated : Expr}
    {step : Coder (List Stmt)} {result : List Variable × List Stmt} {otherwise : List Stmt}
    (hiterated : Evaluates known steps s (.uses iterated.notable) t)
    (hbody : inScope (do
      let holders ← freshAll targets.length
      bindAll (targets.zip holders)
      return (holders, ← step)) { t with temps := t.temps + 3 } = .ok result u)
    (hstep : ∀ {s t : CodeState} {body : List Stmt}, step s = .ok body t →
      Carries known inside s (.code body) t)
    (hother : Carries known other u (.code otherwise) w) (hnone : hasElse = false → other = []) :
    Carries known (steps ++ [.loop targets inside hasElse other]) s
      (.code (loopCode (.temp (t.temps + 1)) (.temp (t.temps + 2)) (.temp (t.temps + 3)) iterated
        (targets.zip result.1) result.2 (if hasElse then some otherwise else none))) w := by
  obtain ⟨hholders, hscopes, hpending, hinside⟩ := loopBody_eq_ok hbody hstep
  replace hinside {σ : Scoping} (hσ : Agrees t σ) :
      let σ' := Scoping.bind (loopTargets σ.temps targets)
        { σ with temps := σ.temps + 3 + targets.length }
      Emits known (Outline.flowAll inside σ').1 (.code result.2) ∧
        Agrees u { σ with temps := (Outline.flowAll inside σ').2.temps } := by
    have h := hinside { σ with temps := σ.temps + 3 } (hσ.fresh 3)
    simp only [hσ.temps] at h
    exact h
  have hmoves : Moves [.loop targets inside hasElse other] t w := by
    refine ⟨fun σ hσ => ?_, by rw [hother.outer, hscopes], ?_⟩
    · rw [Outline.flowAll_singleton]
      exact hother.agrees _ (hinside hσ).2
    · rw [hother.pending, hpending]
      simp [Outline.blocks, Outline.leavesAll, Outline.leaves]
  refine ⟨hiterated.toMoves.append hmoves, fun σ hσ => ?_⟩
  have hτ := hiterated.agrees σ hσ
  have hcode := hother.emits _ (hinside hτ).2
  rw [Outline.flowAll_append, Outline.flowAll_singleton, hholders, hτ.temps]
  cases hasElse with
  | false =>
    obtain rfl := hnone rfl
    exact .loopCode _ targets none (hiterated.emits σ hσ) (hinside hτ).1 (fun _ => rfl)
      fun _ hsome => absurd hsome (Option.some_ne_none _).symm
  | true =>
    refine .loopCode _ targets (some otherwise) (hiterated.emits σ hσ) (hinside hτ).1
      (fun hnone => absurd hnone (Option.some_ne_none _)) fun code hsome => ?_
    obtain rfl := Option.some.inj hsome
    exact hcode

end

namespace CodeContext

variable {cx : CodeContext} {s t : CodeState}

theorem carries_membersCode {module : Variable} {names : List (String × Option String)}
    {code : List Stmt} (h : membersCode module names s = .ok code t) :
    Carries [module]
      (names.map fun (exported, renamed) => .define (some (renamed.getD exported)) []) s
      (.code code) t := by
  induction names generalizing s code with
  | nil =>
    obtain ⟨rfl, rfl⟩ := pure_eq_ok_iff.mp h
    exact .done
  | cons entry names ih =>
    obtain ⟨exported, renamed⟩ := entry
    obtain ⟨u, rest, hbind, hrest, rfl⟩ := membersCode_cons_eq_ok_iff.mp h
    have hmoves := Moves.define (s := s) rfl .nil hbind
    have hrest := ih hrest
    refine ⟨hmoves.append hrest.toMoves, fun σ hσ => ?_⟩
    have hhas : Emits [module] [] (.uses (hasOwn (.variable module) (.string exported)).notable) :=
      (Emits.of_variable (List.mem_cons_self ..)).of_notable_eq (by simp)
    have hindex : Emits [module] []
        (.uses (Expr.index (.variable module) (.string exported)).notable) :=
      (Emits.of_variable (List.mem_cons_self ..)).of_notable_eq (by simp)
    change Emits [module] (.assign [.temporary (σ.temps + 1)] :: _) _
    rw [List.append_assoc, hσ.temps]
    refine .member hhas hindex ?_ ((Emits.publish (List.mem_cons_self ..)).code_append
      ((hrest.emits _ (hmoves.agrees σ hσ)).mono (List.subset_cons_self _ _)))
    exact .of_notable_eq_nil (by simp (disch := decide))

/-- An imported template is held by a new temporary. -/
theorem emits_importCode {target : Expr} {withContext : Bool} {result : Variable × List Stmt}
    (h : cx.importCode target withContext s = .ok result t) :
    fresh s = .ok result.1 t ∧ ∀ {before flow : List Flow} {body : List Stmt},
      Emits [] before (.uses target.notable) → Emits [result.1] flow (.code body) →
        Emits [] (before ++ .assign [.temporary (s.temps + 1)] :: flow)
          (.code (result.2 ++ body)) := by
  obtain ⟨v, u, hfresh, h⟩ := bind_eq_ok_iff.mp h
  obtain ⟨rfl, rfl⟩ := pure_eq_ok_iff.mp h
  refine ⟨hfresh, fun htarget hbody => ?_⟩
  obtain ⟨rfl, rfl⟩ := fresh_eq_ok hfresh
  refine .declare (htarget.of_notable_eq (by simp)) (.cons (.assign (by simp)) ?_ hbody)
  refine (Emits.of_variable (v := .temp (s.temps + 1)) (by simp)).of_notable_eq ?_
  split <;> simp (disch := decide)

/-- The code of an inclusion, after that of the expression that names the template. -/
theorem carries_inclusionCode {target : Expr} {form : Inclusion} {steps : List Outline}
    {code : List Stmt} {u : CodeState} (htarget : Evaluates [] steps s (.uses target.notable) t)
    (h : cx.inclusionCode target form t = .ok code u) :
    Carries [] (steps ++ form.outline) s (.code code) u := by
  have htemplate (flags : Bool × Option Bool) {σ : Scoping} (hσ : Agrees s σ) :
      Emits [] (Outline.flowAll steps σ).1 (.uses (cx.getTemplate target flags).notable) :=
    (htarget.emits σ hσ).of_notable_eq (by simp)
  have htemps {σ : Scoping} (hσ : Agrees s σ) : t.temps = (Outline.flowAll steps σ).2.temps :=
    (htarget.agrees σ hσ).temps
  cases form with
  | parent =>
    obtain ⟨v, u, hfresh, h⟩ := bind_eq_ok_iff.mp h
    obtain ⟨rfl, rfl⟩ := pure_eq_ok_iff.mp h
    refine ⟨htarget.toMoves.append ((Moves.unnamed hfresh).append .parent), fun σ hσ => ?_⟩
    obtain ⟨rfl, rfl⟩ := fresh_eq_ok hfresh
    rw [Outline.flowAll_append, htemps hσ]
    exact .declare (htemplate _ hσ) (.parent (List.mem_cons_self ..) .done)
  | part ignoreMissing =>
    obtain ⟨v, u, hfresh, h⟩ := bind_eq_ok_iff.mp h
    obtain ⟨rfl, rfl⟩ := pure_eq_ok_iff.mp h
    refine ⟨htarget.toMoves.append (Moves.unnamed hfresh), fun σ hσ => ?_⟩
    obtain ⟨rfl, rfl⟩ := fresh_eq_ok hfresh
    rw [Outline.flowAll_append, htemps hσ]
    have hread := Emits.of_variable (List.mem_singleton_self (Variable.temp (t.temps + 1)))
    rw [htemps hσ] at hread
    refine .declare (htemplate _ hσ) (.guard hread (.cons (.append ?_) ?_ .done) .done)
    · simp [Variable.isCommon, commonNames]
    · exact hread.of_notable_eq (by simp (disch := decide))
  | module exportsName withContext =>
    obtain ⟨imported, v, himported, hbind, rfl⟩ := inclusionCode_module_eq_ok_iff.mp h
    obtain ⟨hfresh, hemits⟩ := emits_importCode himported
    refine ⟨htarget.toMoves.append (Moves.define hfresh .nil hbind), fun σ hσ => ?_⟩
    rw [Outline.flowAll_append]
    change Emits [] (_ ++ [.assign [.temporary ((Outline.flowAll steps σ).2.temps + 1)]]) _
    rw [← htemps hσ]
    exact hemits (htarget.emits σ hσ) (.publish (List.mem_singleton_self _))
  | members names withContext =>
    obtain ⟨imported, v, members, himported, hmembers, rfl⟩ := inclusionCode_members_eq_ok_iff.mp h
    obtain ⟨hfresh, hemits⟩ := emits_importCode himported
    have hmembers := carries_membersCode hmembers
    have hmoves := htarget.toMoves.append (Moves.unnamed hfresh)
    have houtline : (Inclusion.members names withContext).outline = .define none [] ::
        names.map fun (exported, renamed) => .define (some (renamed.getD exported)) [] := by
      simp [Inclusion.outline, Inclusion.definitions]
    rw [houtline, ← List.singleton_append, ← List.append_assoc]
    refine ⟨hmoves.append hmembers.toMoves, fun σ hσ => ?_⟩
    have hcode := hemits (htarget.emits σ hσ) (hmembers.emits _ (hmoves.agrees σ hσ))
    rw [htemps hσ] at hcode
    simp only [Outline.flowAll_append, List.append_assoc] at hcode ⊢
    exact hcode

end CodeContext

end TemplateManifest
