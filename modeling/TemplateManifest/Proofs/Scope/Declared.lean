import Mathlib.Data.List.Forall2
import TemplateManifest.Compile.Source
import TemplateManifest.Proofs.Compile.Lexical
import TemplateManifest.Proofs.Script.Undeclared

/-!
Every variable of the emitted code is declared. A symbol reads a variable only where a binding
around it is visible, and the code of each binding declares its variable in the function in which
it stands. Main statement: `Template.undeclared_compile_iff`, which names the one exception.
-/

namespace TemplateManifest

open Script Vocabulary

/-- The variable holds one of the visible names. -/
def Visible.Holds (visible : Visible) (x : Holder) : Prop :=
  ∃ name, (name, some x) ∈ visible

namespace Visible

theorem holds_append {inner outer : Visible} {x : Holder} :
    Holds (inner ++ outer) x ↔ inner.Holds x ∨ outer.Holds x := by
  simp only [Holds, List.mem_append, exists_or]

theorem holds_reverse {visible : Visible} {x : Holder} :
    Holds visible.reverse x ↔ visible.Holds x := by
  simp only [Holds, List.mem_reverse]

theorem holds_of_holder? {visible : Visible} {name : String} {x : Holder}
    (h : visible.holder? name = some x) : visible.Holds x := by
  obtain ⟨⟨bound, holder⟩, hentry, hholder⟩ := List.exists_of_findSome?_eq_some h
  obtain ⟨-, rfl⟩ := Option.ite_none_right_eq_some.mp hholder
  exact ⟨bound, hentry⟩

end Visible

theorem Scoping.holds_bind {σ : Scoping} {entries : Visible} {x : Holder} :
    (σ.bind entries).visible.Holds x ↔ Visible.Holds entries x ∨ σ.visible.Holds x := by
  rw [Scoping.bind, Visible.holds_append, Visible.holds_reverse]

namespace Flow

mutual

/-- The variables that a flow declares in the function in which it stands. -/
@[simp]
def declares : Flow → List Holder
  | assign holders => holders
  | branch body otherwise => declaresAll body ++ declaresAll otherwise
  | loop first body _ otherwise =>
    [.temporary (first + 1), .temporary (first + 2), .temporary (first + 3)] ++
      (declaresAll body ++ declaresAll otherwise)
  | symbol _ _ _ | function _ _ | block _ | parent => []

/-- The variables that some flows declare in the function in which they stand. -/
@[simp]
def declaresAll : List Flow → List Holder
  | [] => []
  | step :: flow => step.declares ++ declaresAll flow

end

mutual

/-- The variables that the symbols of a flow read, those of inner functions apart. -/
@[simp]
def free : Flow → List Holder
  | symbol _ name visible => (visible.holder? name).toList
  | branch body otherwise => freeAll body ++ freeAll otherwise
  | loop _ body _ otherwise => freeAll body ++ freeAll otherwise
  | function params body =>
    (freeAll body).filter fun x => x ∉ params.map .parameter ∧ x ∉ declaresAll body
  | assign _ | block _ | parent => []

/-- The variables that the symbols of some flows read, those of inner functions apart. -/
@[simp]
def freeAll : List Flow → List Holder
  | [] => []
  | step :: flow => step.free ++ freeAll flow

end

@[simp]
theorem declaresAll_append (flow flow' : List Flow) :
    declaresAll (flow ++ flow') = declaresAll flow ++ declaresAll flow' := by
  induction flow with
  | nil => rfl
  | cons step flow ih => simp [ih]

@[simp]
theorem freeAll_append (flow flow' : List Flow) :
    freeAll (flow ++ flow') = freeAll flow ++ freeAll flow' := by
  induction flow with
  | nil => rfl
  | cons step flow ih => simp [ih]

/-- What an inner function reads of variables that it does not declare, it reads from outside. -/
theorem mem_free_function {params : List String} {body : List Flow} {v : Variable}
    (h : v ∈ (freeAll body).map Holder.variable) (hparams : v ∉ params.map .param)
    (hbody : v ∉ (declaresAll body).map Holder.variable) :
    v ∈ (free (.function params body)).map Holder.variable := by
  obtain ⟨x, hx, rfl⟩ := List.mem_map.mp h
  refine List.mem_map_of_mem (List.mem_filter.mpr ⟨hx, decide_eq_true ⟨fun hx => hparams ?_,
    fun hx => hbody (List.mem_map_of_mem hx)⟩⟩)
  obtain ⟨p, hp, rfl⟩ := List.mem_map.mp hx
  exact List.mem_map_of_mem hp

theorem freeAll_loopAssignments (first count : Nat) : freeAll (loopAssignments first count) = [] := by
  unfold loopAssignments
  generalize first + 4 = start
  induction count generalizing start with
  | zero => rfl
  | succ count ih => exact ih (start + 1)

theorem declaresAll_loopAssignments (first count : Nat) :
    declaresAll (loopAssignments first count) = (List.range' (first + 4) count).map .temporary := by
  unfold loopAssignments
  generalize first + 4 = start
  induction count generalizing start with
  | zero => rfl
  | succ count ih => exact congrArg (_ :: ·) (ih (start + 1))

/-- What a flow reads was visible before or is declared in it, and so is what is visible
    afterwards. -/
structure Contained (before : Visible) (flow : List Flow) (after : Visible) : Prop where
  free : ∀ x ∈ freeAll flow, before.Holds x ∨ x ∈ declaresAll flow
  visible : ∀ x, after.Holds x → before.Holds x ∨ x ∈ declaresAll flow

namespace Contained

variable {before between after : Visible} {flow flow' : List Flow}

theorem append (h : Contained before flow between) (h' : Contained between flow' after) :
    Contained before (flow ++ flow') after := by
  have houter {x : Holder} (hx : between.Holds x ∨ x ∈ declaresAll flow') :
      before.Holds x ∨ x ∈ declaresAll (flow ++ flow') := by
    rw [declaresAll_append, List.mem_append]
    rcases hx with hx | hx
    · exact (h.visible x hx).imp_right .inl
    · exact .inr (.inr hx)
  refine ⟨fun x hx => ?_, fun x hx => houter (h'.visible x hx)⟩
  rw [freeAll_append, List.mem_append] at hx
  rcases hx with hx | hx
  · rw [declaresAll_append, List.mem_append]
    exact (h.free x hx).imp_right .inl
  · exact houter (h'.free x hx)

theorem mono (h : Contained before flow after) (hfree : freeAll flow' ⊆ freeAll flow)
    (hdeclares : declaresAll flow ⊆ declaresAll flow') : Contained before flow' after :=
  ⟨fun x hx => (h.free x (hfree hx)).imp_right fun hx => hdeclares hx,
    fun x hx => (h.visible x hx).imp_right fun hx => hdeclares hx⟩

/-- What has become visible is forgotten again. -/
theorem closed (h : Contained before flow after) : Contained before flow before :=
  ⟨h.free, fun _ hx => .inl hx⟩

/-- Names become visible in variables that get their values here. -/
theorem bound {entries : Visible} (hfree : freeAll flow = [])
    (hentries : ∀ x, Visible.Holds entries x → x ∈ declaresAll flow) :
    Contained before flow (entries.reverse ++ before) := by
  refine ⟨fun x hx => ?_, fun x hx => ?_⟩
  · rw [hfree] at hx
    cases hx
  · rw [Visible.holds_append, Visible.holds_reverse] at hx
    exact hx.symm.imp_right (hentries x)

end Contained

end Flow

theorem holds_positional {params : List (String × Bool)} {x : Holder}
    (h : Visible.Holds ((positionalNames params).map fun p => (p, some (.parameter p))) x) :
    x ∈ (positionalNames params).map .parameter := by
  obtain ⟨name, hentry⟩ := h
  obtain ⟨p, hp, heq⟩ := List.mem_map.mp hentry
  cases heq
  exact List.mem_map_of_mem hp

theorem holds_parameterBinding {params : List (String × Bool)} {x : Holder}
    (h : Visible.Holds (params.map parameterBinding) x) :
    x ∈ (positionalNames params).map .parameter := by
  obtain ⟨name, hentry⟩ := h
  obtain ⟨⟨p, hasDefault⟩, hp, heq⟩ := List.mem_map.mp hentry
  cases hasDefault <;> cases heq
  exact List.mem_map_of_mem (List.mem_map.mpr ⟨_, List.mem_filter.mpr ⟨hp, rfl⟩, rfl⟩)

section Bindings

open Flow

/-- The names of an assignment become visible in its variables. -/
theorem contained_assign (names : List String) (holders : List Holder) (visible : Visible) :
    Contained visible [.assign holders] ((names.zip (holders.map some)).reverse ++ visible) := by
  refine .bound rfl fun x ⟨name, hentry⟩ => ?_
  obtain ⟨y, hy, heq⟩ := List.mem_map.mp (List.of_mem_zip hentry).2
  cases heq
  exact List.mem_append_left _ hy

/-- A definition makes its name, if it has one, visible in its variable. -/
theorem contained_define (name : Option String) (x : Holder) (visible : Visible) :
    Contained visible [.assign [x]]
      ((name.toList.map fun name => (name, some x)).reverse ++ visible) := by
  refine .bound rfl fun y ⟨bound, hentry⟩ => ?_
  obtain ⟨_, _, heq⟩ := List.mem_map.mp hentry
  cases heq
  exact List.mem_append_left _ (List.mem_singleton_self _)

/-- The targets of a loop become visible in its temporaries for them. -/
theorem contained_loopTargets (first : Nat) (targets : List String) (visible : Visible) :
    Contained visible (loopAssignments first targets.length)
      ((loopTargets first targets).reverse ++ visible) := by
  refine .bound (freeAll_loopAssignments _ _) fun x ⟨target, hentry⟩ => ?_
  obtain ⟨⟨_, index⟩, hindex, heq⟩ := List.mem_map.mp hentry
  cases heq
  rw [declaresAll_loopAssignments]
  exact List.mem_map_of_mem (List.of_mem_zip hindex).2

end Bindings

open Flow in
mutual

theorem Outline.contained_flow : ∀ (step : Outline) (σ : Scoping),
    Contained σ.visible (step.flow σ).1 (step.flow σ).2.visible
  | .symbol pos name, σ => by
    refine ⟨fun x hx => .inl ?_, fun x hx => .inl hx⟩
    obtain hx | hx := List.mem_append.mp hx
    · exact Visible.holds_of_holder? (Option.mem_toList.mp hx)
    · cases hx
  | .block _, σ | .parent, σ => ⟨nofun, fun x hx => .inl hx⟩
  | .assign names, σ => contained_assign names _ _
  | .define name inner, σ =>
    (Outline.contained_flowAll inner { σ with temps := σ.temps + 1 }).append
      (contained_define name _ _)
  | .branch body otherwise, σ => by
    refine ((Outline.contained_flowAll body σ).append
      (Outline.contained_flowAll otherwise _)).mono ?_ ?_ <;> simp [flow]
  | .loop targets body hasElse otherwise, σ => by
    let inside : Scoping := Scoping.bind (loopTargets σ.temps targets)
      { σ with temps := σ.temps + 3 + targets.length }
    have hbody := ((contained_loopTargets σ.temps targets σ.visible).append
      (Outline.contained_flowAll body inside)).closed
    have hother := Outline.contained_flowAll otherwise
      { σ with temps := (flowAll body inside).2.temps }
    refine (hbody.append hother).mono ?_ ?_
    · simp [flow, inside]
    · intro x hx
      simp only [flow, declaresAll, declares, declaresAll_append, List.append_nil,
        List.mem_append] at hx ⊢
      exact .inr hx
  | .function params defaults body, σ => by
    refine ⟨fun x hx => .inl ?_, fun x hx => .inl hx⟩
    simp only [flow, freeAll, free, List.append_nil, List.mem_filter, decide_eq_true_eq,
      freeAll_append, declaresAll_append, List.mem_append, not_or] at hx
    obtain ⟨hx, hparam, hbefore, hinside⟩ := hx
    rcases hx with hx | hx
    · have hx := ((Outline.contained_flowAll defaults _).free x hx).resolve_right hbefore
      exact (Scoping.holds_bind.mp hx).resolve_left fun hx => hparam (holds_positional hx)
    · have hx := ((Outline.contained_flowAll body _).free x hx).resolve_right hinside
      exact (Scoping.holds_bind.mp hx).resolve_left fun hx => hparam (holds_parameterBinding hx)

theorem Outline.contained_flowAll : ∀ (steps : List Outline) (σ : Scoping),
    Contained σ.visible (flowAll steps σ).1 (flowAll steps σ).2.visible
  | [], _ => ⟨nofun, fun _ hx => .inl hx⟩
  | step :: steps, σ =>
    (Outline.contained_flow step σ).append (Outline.contained_flowAll steps _)

end

/-- The code of the step asks whether the template has a parent. -/
def Outline.needsParent : Outline → Bool
  | block _ | parent => true
  | _ => false

/-- There is a block or an extends tag in the flow. -/
def Flow.NeedsParent (flow : List Flow) : Prop :=
  ∃ leaf ∈ leavesAll flow, leaf.needsParent = true

@[simp]
theorem Flow.needsParent_append {flow flow' : List Flow} :
    NeedsParent (flow ++ flow') ↔ NeedsParent flow ∨ NeedsParent flow' := by
  simp only [NeedsParent, leavesAll_append, List.mem_append, or_and_right, exists_or]

section NeedsParent

variable {flow : List Flow}

@[simp]
theorem Flow.needsParent_nil : ¬ NeedsParent [] := by
  simp [NeedsParent, leavesAll]

@[simp]
theorem Flow.needsParent_symbol {pos : Position} {name : String} {visible : Visible} :
    NeedsParent (.symbol pos name visible :: flow) ↔ NeedsParent flow := by
  simp [NeedsParent, leavesAll, leaves, Outline.needsParent]

@[simp]
theorem Flow.needsParent_assign {holders : List Holder} :
    NeedsParent (.assign holders :: flow) ↔ NeedsParent flow := by
  simp [NeedsParent, leavesAll, leaves]

@[simp]
theorem Flow.needsParent_branch {body otherwise : List Flow} :
    NeedsParent (.branch body otherwise :: flow) ↔
      NeedsParent body ∨ NeedsParent otherwise ∨ NeedsParent flow := by
  simp only [NeedsParent, leavesAll, leaves, List.mem_append, or_and_right, exists_or, or_assoc]

@[simp]
theorem Flow.needsParent_loop {first : Nat} {body otherwise : List Flow} {hasElse : Bool} :
    NeedsParent (.loop first body hasElse otherwise :: flow) ↔
      NeedsParent body ∨ NeedsParent otherwise ∨ NeedsParent flow := by
  simp only [NeedsParent, leavesAll, leaves, List.mem_append, or_and_right, exists_or, or_assoc]

@[simp]
theorem Flow.needsParent_function {params : List String} {body : List Flow} :
    NeedsParent (.function params body :: flow) ↔ NeedsParent body ∨ NeedsParent flow := by
  simp only [NeedsParent, leavesAll, leaves, List.mem_append, or_and_right, exists_or]

@[simp]
theorem Flow.needsParent_block {b : PendingBlock} : NeedsParent (.block b :: flow) := by
  simp [NeedsParent, leavesAll, leaves, Outline.needsParent]

@[simp]
theorem Flow.needsParent_parent : NeedsParent (.parent :: flow) := by
  simp [NeedsParent, leavesAll, leaves, Outline.needsParent]

end NeedsParent

namespace Script

/-- The variables that the code of a flow declares without help of the flow. -/
def localVariables : List Variable :=
  [.named "output", .named "callerFrame", .named "n"]

namespace Piece

/-- What a piece of code does with variables. -/
@[simp]
def within : Piece → List Use
  | .uses us => us
  | .code body => Stmt.usesWithinAll body

/-- The variables that a piece of code declares. -/
@[simp]
def declared : Piece → List Variable
  | .uses _ => []
  | .code body => Stmt.declaresAll body

end Piece

theorem Does.declares_eq {known : List Variable} {s : Stmt} {value : Expr}
    (h : Does known s value) : s.declares = [] := by
  cases h <;> rfl

theorem Does.mentions {known : List Variable} {s : Stmt} {value : Expr} {v : Variable}
    (h : Does known s value) (hv : v.isCommon = false) (hmentions : Mentions v s.usesWithin) :
    v ∈ known ∨ Mentions v value.notable := by
  rw [Mentions.notable_iff hv]
  cases h with
  | assign htargets =>
    simp only [Stmt.usesWithin, Stmt.uses, Mentions.append_iff, Mentions.map_write_iff] at hmentions
    refine hmentions.imp_left fun hmem => (htargets v hmem).resolve_left ?_
    exact Bool.eq_false_iff.mp hv
  | append hcommon =>
    simp only [Stmt.usesWithin, Stmt.uses, Mentions.read_cons, Mentions.write_cons] at hmentions
    rcases hmentions with rfl | rfl | hmentions
    · exact absurd hcommon (Bool.eq_false_iff.mp hv)
    · exact absurd hcommon (Bool.eq_false_iff.mp hv)
    · exact .inr hmentions
  | run => exact .inr hmentions

theorem Does.mentions_of_value {known : List Variable} {s : Stmt} {value : Expr} {v : Variable}
    (h : Does known s value) (hv : v.isCommon = false) (hvalue : Mentions v value.notable) :
    Mentions v s.usesWithin := by
  rw [Mentions.notable_iff hv] at hvalue
  cases h with
  | assign => exact Mentions.append_iff.mpr (.inr hvalue)
  | append => exact Mentions.read_cons.mpr (.inr (Mentions.write_cons.mpr (.inr hvalue)))
  | run => exact hvalue

theorem usesWithinAll_declarations (holders : List Holder) :
    Stmt.usesWithinAll (holders.map fun x => .declare x.variable none) = [] := by
  induction holders with
  | nil => rfl
  | cons x holders ih => exact ih

theorem declaresAll_declarations (holders : List Holder) :
    Stmt.declaresAll (holders.map fun x => .declare x.variable none) =
      holders.map Holder.variable := by
  induction holders with
  | nil => rfl
  | cons x holders ih => exact congrArg (_ :: ·) ih

end Script

namespace Emits

variable {known : List Variable} {flow : List Flow} {p : Piece}

/-- The code of a flow declares what the flow declares. -/
theorem declared_iff (h : Emits known flow p) {v : Variable} (hv : v ∉ localVariables) :
    v ∈ p.declared ↔ v ∈ (Flow.declaresAll flow).map Holder.variable := by
  induction h with
  | none | done => exact Iff.rfl
  | read _ _ ih | held _ _ ih | unheld _ _ ih | function _ _ _ _ _ ih => exact ih
  | step hs _ _ ihvalue ih =>
    simp_all [hs.declares_eq, -List.mem_map]
  | declareNamed hname _ _ ihvalue ih =>
    rcases List.mem_pair.mp hname with rfl | rfl <;>
      simp_all [localVariables, -List.mem_map]
  | guard | declare | assign | member | branch | branchElse | block =>
    simp_all [declaresAll_declarations, -List.mem_map]
  | loop | loopElse =>
    simp_all [loopBody, -List.mem_map]
  | parent =>
    simp_all [adoptParent, localVariables, -List.mem_map]

/-- No variable of the flow is one that the code declares without help of the flow. -/
theorem notMem_localVariables {v : Variable} {holders : List Holder}
    (h : v ∈ holders.map Holder.variable) : v ∉ localVariables := by
  obtain ⟨x, -, rfl⟩ := List.mem_map.mp h
  cases x <;> simp [localVariables]

/-- The code of a flow mentions only what is known, what it declares itself and what the symbols of
    the flow read; and the variable for the parent template, if there is a block or an extends tag
    in it. -/
theorem mentions (h : Emits known flow p) {v : Variable} (hv : v.isCommon = false)
    (hmentions : Mentions v p.within) :
    v ∈ known ∨ v ∈ p.declared ∨ v ∈ (Flow.freeAll flow).map Holder.variable ∨
      v = .named "parentTemplate" ∧ Flow.NeedsParent flow := by
  induction h with
  | none | done => exact absurd hmentions Mentions.not_nil
  | read | unheld =>
    simp at *
    grind
  | held hx _ ih =>
    simp [hx] at *
    grind
  | @function known flow inside us params extra body result hextra hbody hresult _ ihbody ih =>
    rw [Flow.freeAll, List.map_append, List.mem_append, Flow.needsParent_function]
    rcases Mentions.function_cons.mp hmentions with ⟨hparams, hdeclared, hinside⟩ | hrest
    · rw [Stmt.declaresAll_append, List.mem_append, not_or] at hdeclared
      rw [Stmt.usesWithinAll_append, Mentions.append_iff] at hinside
      have hresult : ¬ Mentions v (Stmt.usesWithinAll [.return result]) := by
        rw [Stmt.usesWithinAll, Stmt.usesWithinAll, List.append_nil, Stmt.usesWithin,
          ← Mentions.notable_iff hv, hresult]
        exact Mentions.not_nil
      rcases ihbody (hinside.resolve_right hresult) with h | h | h | ⟨h, hneeds⟩
      · exact absurd h hparams
      · exact absurd h hdeclared.1
      · exact .inr (.inr (.inl (.inl (Flow.mem_free_function h
          (fun h => hparams (List.mem_append_left _ h))
          (fun h => hdeclared.1 ((hbody.declared_iff (notMem_localVariables h)).mpr h))))))
      · exact .inr (.inr (.inr ⟨h, .inl hneeds⟩))
    · rcases ih hrest with h | h | h | ⟨h, hneeds⟩
      · exact .inl h
      · exact .inr (.inl h)
      · exact .inr (.inr (.inl (.inr h)))
      · exact .inr (.inr (.inr ⟨h, .inr hneeds⟩))
  | step hs _ _ ihvalue ih =>
    have hdoes := hs.mentions hv
    simp [hs.declares_eq] at *
    grind
  | assign =>
    simp [Mentions.notable_iff hv, usesWithinAll_declarations, declaresAll_declarations,
      -List.map_map, -List.mem_map] at *
    grind
  | declareNamed | declare | member | guard | branch | branchElse =>
    simp [Mentions.notable_iff hv] at *
    grind
  | @block known flow b call body hcall _ ih =>
    have hcall : ¬ Mentions v call.uses := by
      rw [← Mentions.notable_iff hv, hcall]
      exact Mentions.not_nil
    have houtput : v ≠ .named "output" := by
      rintro rfl
      cases hv
    simp [name, Expr.uses, hcall, houtput] at *
    grind
  | loop | loopElse =>
    simp [Mentions.notable_iff hv, loopBody, Expr.uses] at *
    grind
  | parent =>
    have hcontext : v ≠ .named "context" := by
      rintro rfl
      cases hv
    simp [adoptParent, name, method, Expr.uses, Expr.usesAll, hcontext] at *
    grind

/-- The variable for the parent template is a matter of the function for the whole template. -/
theorem parentTemplate_notMem_declared (h : Emits known flow p) :
    .named "parentTemplate" ∉ p.declared := by
  rw [h.declared_iff (by decide)]
  simp only [List.mem_map, not_exists, not_and]
  rintro (index | name) - heq <;> cases heq

/-- The code of a block or an extends tag asks whether there is a parent template. -/
theorem mentions_parentTemplate (h : Emits known flow p) (hneeds : Flow.NeedsParent flow) :
    Mentions (.named "parentTemplate") p.within := by
  have hv : Variable.isCommon (.named "parentTemplate") = false := by decide
  induction h with
  | none | done => exact absurd hneeds Flow.needsParent_nil
  | @function known flow inside us params extra body result hextra hbody _ _ ihbody ih =>
    rw [Piece.within, Mentions.function_cons]
    rcases Flow.needsParent_function.mp hneeds with hneeds | hneeds
    · refine .inl ⟨?_, ?_, ?_⟩
      · rcases hextra with rfl | rfl <;> simp
      · rw [Stmt.declaresAll_append, List.mem_append, not_or]
        exact ⟨hbody.parentTemplate_notMem_declared, nofun⟩
      · rw [Stmt.usesWithinAll_append, Mentions.append_iff]
        exact .inl (ihbody hneeds)
    · exact .inr (ih hneeds)
  | step hs _ _ ihvalue ih =>
    have hdoes := hs.mentions_of_value hv
    simp at *
    grind
  | block => simp [name, Expr.uses]
  | parent => simp [adoptParent]
  | _ =>
    simp [Mentions.notable_iff hv, loopBody] at *
    grind

end Emits

/-- The code of the node asks whether the template has a parent: it is a block or an extends
    tag. -/
def Node.needsParent : Node → Bool
  | block _ _ _ | inclusion _ .parent _ => true
  | _ => false

theorem Node.needsParent_iff_leaf? {node : Node} :
    node.needsParent = true ↔ ∃ leaf, node.leaf? = some leaf ∧ leaf.needsParent = true := by
  cases node with
  | inclusion pos form template => cases form <;> simp [needsParent, leaf?, Outline.needsParent]
  | _ => simp [needsParent, leaf?, Outline.needsParent]

/-- The flow of a body needs the parent exactly if a block or an extends tag stands in the body. -/
theorem Node.needsParent_bodyFlow {body : List Node} {temps : Nat} :
    Flow.NeedsParent (bodyFlow body temps) ↔
      ∃ node : Node, node.needsParent = true ∧ node.Among body := by
  rw [Flow.NeedsParent, bodyFlow, Outline.leaves_flowAll]
  constructor
  · rintro ⟨leaf, hmem, hneeds⟩
    obtain ⟨node, hleaf, hamong⟩ := exists_among_of_mem_leavesAll hmem
    exact ⟨node, needsParent_iff_leaf?.mpr ⟨leaf, hleaf, hneeds⟩, hamong⟩
  · rintro ⟨node, hneeds, hamong⟩
    obtain ⟨leaf, hleaf, hneeds⟩ := needsParent_iff_leaf?.mp hneeds
    rcases mem_leavesAll_of_among hleaf hamong with hmem | ⟨b, hb, -⟩
    · exact ⟨leaf, hmem, hneeds⟩
    · have hhere {outer : PendingBlock} (houter : outer ∈ Outline.blocks (outlineAll body)) :
          ∃ leaf ∈ Outline.leavesAll (outlineAll body), leaf.needsParent = true := by
        obtain ⟨leaf, hmem, heq⟩ := List.mem_filterMap.mp houter
        cases leaf <;> cases heq
        exact ⟨_, hmem, rfl⟩
      cases hb with
      | here h => exact hhere h
      | inside houter => exact hhere houter

/-- The code for a body uses only what it declares, apart from common variables and the variable
    for the parent template. -/
theorem Emits.mentions_body {body : List Node} {temps : Nat} {code : List Stmt} {v : Variable}
    (h : Emits [] (Node.bodyFlow body temps) (.code code)) (hv : v.isCommon = false)
    (hmentions : Mentions v (Stmt.usesWithinAll code)) :
    v ∈ Stmt.declaresAll code ∨ v = .named "parentTemplate" ∧
      ∃ node : Node, node.needsParent = true ∧ node.Among body := by
  rcases h.mentions hv hmentions with hknown | hdeclared | hfree | ⟨rfl, hneeds⟩
  · cases hknown
  · exact .inl hdeclared
  · obtain ⟨x, hx, rfl⟩ := List.mem_map.mp hfree
    refine .inl ((h.declared_iff (notMem_localVariables hfree)).mpr (List.mem_map_of_mem ?_))
    exact ((Outline.contained_flowAll _ _).free x hx).resolve_left fun ⟨_, hentry⟩ => nomatch hentry
  · exact .inr ⟨rfl, Node.needsParent_bodyFlow.mp hneeds⟩

section Functions

variable {start finish : List Stmt}

/-- What stands around the code for a body declares what that code takes for granted. -/
structure Prepares (start finish : List Stmt) : Prop where
  common : ∀ v : Variable, v.IsIntroduced → v.isCommon = true →
    v ∈ renderParameters ∨ v ∈ Stmt.declaresAll start
  mentions : ∀ v, Mentions v (Stmt.usesWithinAll (start ++ finish)) →
    v.isCommon = true ∨ v ∈ Stmt.declaresAll start
  finish : Stmt.declaresAll finish = []

theorem introduced_declared_prologue {v : Variable} (hv : v.IsIntroduced)
    (hcommon : v.isCommon = true) : v ∈ renderParameters ∨ v ∈ Stmt.declaresAll prologue := by
  cases v with
  | named name =>
    have hnames : ∀ name ∈ introducedNames, Variable.isCommon (.named name) = true →
        .named name ∈ renderParameters ∨ .named name ∈ Stmt.declaresAll prologue := by
      decide
    exact hnames name hv hcommon
  | temp | param => cases hcommon

theorem prepares_root (cx : CodeContext) : Prepares rootStart (rootEnd cx) := by
  refine ⟨fun v hv hcommon => ?_, fun v h => or_iff_not_imp_left.mpr fun hv => ?_, rfl⟩
  · rw [rootStart, Stmt.declaresAll_append, List.mem_append]
    exact (introduced_declared_prologue hv hcommon).imp_right .inl
  · have hparent {v : Variable} (h : Mentions v (name "parentTemplate").notable) :
        v ∈ Stmt.declaresAll rootStart := by
      rw [(or_iff_left Mentions.not_nil).mp (Mentions.read_cons.mp h)]
      decide
    rw [Bool.not_eq_true] at hv
    rw [rootEnd, CodeContext.awaitedIfAsync] at h
    split at h <;>
      simp (disch := decide) [rootStart, prologue, CodeContext.awaited, number, method, renderArguments, ← Mentions.notable_iff hv] at h <;>
      rcases h with rfl | rfl | rfl | rfl | h <;> first | decide | exact hparent h

theorem prepares_block : Prepares blockStart blockEnd := by
  refine ⟨fun v => introduced_declared_prologue, fun v h => or_iff_not_imp_left.mpr fun hv => ?_,
    rfl⟩
  rw [Bool.not_eq_true] at hv
  simp (disch := decide) [blockStart, blockEnd, prologue, pushFrame, number, truth, method, ← Mentions.notable_iff hv] at h
  rcases h with rfl | rfl | rfl | rfl <;> first | decide | cases hv

/-- A function for a body leaves at most the variable for the parent template undeclared. -/
theorem Renders.undeclared_iff {body : List Node} {function : List Stmt} (hprepares : Prepares start finish)
    (h : Renders start finish body function) {v : Variable} (hv : v.IsIntroduced) :
    Undeclared v function ↔
      v = .named "parentTemplate" ∧ v ∉ Stmt.declaresAll start ∧
        ∃ node : Node, node.needsParent = true ∧ node.Among body := by
  obtain ⟨temps, code, rfl, hemits⟩ := h
  rw [Undeclared, Stmt.declaresAll_append, Stmt.declaresAll_append, hprepares.finish,
    List.append_nil, List.mem_append, not_or, Stmt.usesWithinAll_append, Stmt.usesWithinAll_append,
    Mentions.append_iff, Mentions.append_iff]
  constructor
  · rintro ⟨hparam, ⟨hstart, hcode⟩, hmentions⟩
    have hcommon : v.isCommon = false := by
      rw [Bool.eq_false_iff]
      exact fun h => (hprepares.common v hv h).elim hparam hstart
    have haround (h : Mentions v (Stmt.usesWithinAll (start ++ finish))) : False := by
      rcases hprepares.mentions v h with h | h
      · exact Bool.false_ne_true (hcommon.symm.trans h)
      · exact hstart h
    rw [Stmt.usesWithinAll_append, Mentions.append_iff] at haround
    rcases hmentions with h | h | h
    · exact (haround (.inl h)).elim
    · obtain ⟨rfl, hnode⟩ := (hemits.mentions_body hcommon h).resolve_left hcode
      exact ⟨rfl, hstart, hnode⟩
    · exact (haround (.inr h)).elim
  · rintro ⟨rfl, hstart, hnode⟩
    exact ⟨by decide, ⟨hstart, hemits.parentTemplate_notMem_declared⟩,
      .inr (.inl (hemits.mentions_parentTemplate (Node.needsParent_bodyFlow.mpr hnode)))⟩

end Functions

/-- Every variable that code generation introduces is declared where it is used, except that the
    function of a block uses `parentTemplate` without a declaration, if a block or an extends tag
    stands inside the block. -/
theorem Template.undeclared_compile_iff {template : Template} {env : Environment}
    {moduleVar : String} {module : Module} (h : template.compile env moduleVar = .ok module) :
    (∀ v : Variable, v.IsIntroduced → ¬ Undeclared v module.root) ∧
      ∃ bs : List PendingBlock,
        (∀ b, b ∈ bs ↔ ∃ pos, (Node.block pos b.name b.body).Among template.body) ∧
        List.Forall₂
          (fun b function => function.name = b.name ∧
            ∀ v : Variable, v.IsIntroduced → (Undeclared v function.body ↔
              v = .named "parentTemplate" ∧
                ∃ node : Node, node.needsParent = true ∧ node.Among b.body))
          bs module.blocks := by
  obtain ⟨hroot, bs, hbs, hblocks⟩ := template.renders_compile h
  refine ⟨fun v hv hundeclared => ?_, bs, fun b => (hbs b).trans Node.hasBlock_iff,
    hblocks.imp fun b function hfunction => ⟨hfunction.1, fun v hv => ?_⟩⟩
  · obtain ⟨rfl, hstart, -⟩ := (Renders.undeclared_iff (prepares_root _) ⟨0, hroot⟩ hv).mp hundeclared
    exact hstart (by decide)
  · rw [Renders.undeclared_iff prepares_block hfunction.2 hv]
    refine and_congr_right fun heq => and_iff_right ?_
    rw [heq]
    decide

theorem Template.undeclared_compile_iff_block_in_macro_scope :
    let source := "\x7b% set x = 1 %\x7d\x7b% macro m(y) %\x7d\x7b\x7b x + y \x7d\x7d\x7b% endmacro %\x7d\x7b% block a %\x7d\x7b\x7b x \x7d\x7d\x7b% endblock %\x7d"
    ∃ template module, Template.ofSource {} "t.njk" source = .ok template ∧
      template.compile {} "template" = .ok module ∧ module.blocks.map (·.name) = ["a"] ∧
      ∀ v : Variable, v.IsIntroduced → ¬ Undeclared v module.root := by
  intro source
  have hfound : (Template.ofSource {} "t.njk" source).toOption.any fun template =>
      (template.compile {} "template").toOption.any fun module =>
        module.blocks.map (·.name) = ["a"] := by
    decide +kernel
  obtain ⟨template, htemplate, hfound⟩ := exists_eq_ok_of_any hfound
  obtain ⟨module, hmodule, hfound⟩ := exists_eq_ok_of_any hfound
  exact ⟨template, module, htemplate, hmodule, of_decide_eq_true hfound,
    (Template.undeclared_compile_iff hmodule).1⟩

/-- The use reads the variable of a parent template. -/
def Script.Use.readsParent : Use → Bool
  | .read (.named name) => name = "parentTemplate"
  | _ => false

theorem Script.Use.eq_read_of_readsParent {use : Use} (h : use.readsParent = true) :
    use = .read (.named "parentTemplate") := by
  unfold readsParent at h
  split at h
  · next name => rw [of_decide_eq_true h]
  · cases h

/-- The function of a block with a block in it asks for a parent template, although only the root
    function declares a variable for it. -/
theorem parentTemplate_undeclared_in_nested_block :
    let source := "\x7b% block a %\x7d\x7b% block b %\x7d\x7b% endblock %\x7d\x7b% endblock %\x7d"
    ∃ template module function, Template.ofSource {} "t.njk" source = .ok template ∧
      template.compile {} "template" = .ok module ∧ module.blocks.head? = some function ∧
      function.name = "a" ∧ Undeclared (.named "parentTemplate") function.body := by
  intro source
  have hfound : (Template.ofSource {} "t.njk" source).toOption.any fun template =>
      (template.compile {} "template").toOption.any fun module =>
        module.blocks.head?.any fun function =>
          function.name = "a" ∧ .named "parentTemplate" ∉ Stmt.declaresAll function.body ∧
            (Stmt.usesWithinAll function.body).any Use.readsParent := by
    decide +kernel
  obtain ⟨template, htemplate, hfound⟩ := exists_eq_ok_of_any hfound
  obtain ⟨module, hmodule, hfound⟩ := exists_eq_ok_of_any hfound
  obtain ⟨function, hfunction, hfound⟩ := (Option.any_eq_true ..).mp hfound
  obtain ⟨hname, hdeclared, hreads⟩ := of_decide_eq_true hfound
  obtain ⟨use, huse, hread⟩ := List.any_eq_true.mp hreads
  obtain rfl := Use.eq_read_of_readsParent hread
  exact ⟨template, module, _, htemplate, hmodule, hfunction, hname, by decide,
    hdeclared, .read huse⟩

end TemplateManifest
