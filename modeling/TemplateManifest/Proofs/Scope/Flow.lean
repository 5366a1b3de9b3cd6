import Mathlib.Data.List.Basic
import TemplateManifest.Proofs.Scope.Outline
import TemplateManifest.Proofs.Script.Uses

/-!
Lexical scoping. A name means what its innermost visible binding says. The targets of a loop are
visible in its body, and the parameters of a macro in its body; a definition is visible from
where it stands to the end of the innermost loop body or function around it, and a branch ends no
scope. Going through an outline with the bindings that are visible gives a flow, in which each
symbol knows the bindings that it sees, and each value goes to a variable.
-/

namespace TemplateManifest

open Script

/-- A variable of emitted code that can hold a name. -/
inductive Holder where
  | temporary (index : Nat)
  | parameter (name : String)
deriving DecidableEq, Repr

/-- The variable of emitted code. -/
def Holder.variable : Holder → Variable
  | .temporary index => .temp index
  | .parameter name => .param name

@[simp]
theorem Holder.variable_temporary (index : Nat) :
    (temporary index).variable = .temp index := rfl

@[simp]
theorem Holder.variable_parameter (name : String) :
    (parameter name).variable = .param name := rfl

theorem Holder.variable_injective : Function.Injective Holder.variable := by
  intro x y h
  cases x <;> cases y <;> cases h <;> rfl

/-- The bindings that are visible at some place, the innermost first. A parameter with a default
    is bound, but no variable holds it. -/
abbrev Visible := List (String × Option Holder)

namespace Visible

/-- The variable of the innermost visible binding of a name, if there is a binding and it has a
    variable. -/
def innermost? (visible : Visible) (name : String) : Option Holder :=
  (visible.lookup name).join

/-- The variable of the innermost visible binding of a name among those that have one. -/
def holder? (visible : Visible) (name : String) : Option Holder :=
  visible.findSome? fun (bound, holder) => if bound = name then holder else none

/-- The innermost binding of a name is a parameter with a default, and a binding further out has
    a variable. -/
def Hides (visible : Visible) (name : String) : Prop :=
  visible.lookup name = some none ∧ (visible.holder? name).isSome

theorem holder?_append (inner outer : Visible) (name : String) :
    holder? (inner ++ outer) name = (inner.holder? name).or (outer.holder? name) :=
  List.findSome?_append

/-- The two ways to look a name up agree unless a parameter with a default hides a variable. -/
theorem innermost?_eq_holder?_iff (visible : Visible) (name : String) :
    visible.innermost? name = visible.holder? name ↔ ¬ visible.Hides name := by
  induction visible with
  | nil => simp [innermost?, holder?, Hides]
  | cons entry visible ih =>
    obtain ⟨bound, holder⟩ := entry
    by_cases hbound : bound = name
    · subst hbound
      cases holder with
      | some x => simp [innermost?, holder?, Hides]
      | none =>
        simp only [innermost?, Hides, holder?, List.lookup_cons_self, List.findSome?_cons, if_pos,
          Option.join_some, true_and]
        cases List.findSome? _ visible <;> simp
    · have hlookup : List.lookup name ((bound, holder) :: visible) = visible.lookup name := by
        rw [List.lookup_cons]
        simp [beq_eq_false_iff_ne.mpr (Ne.symm hbound)]
      have hholder : Visible.holder? ((bound, holder) :: visible) name = holder? visible name := by
        simp [holder?, hbound]
      rw [Hides, innermost?, hlookup, hholder]
      exact ih

end Visible

/-- The visible bindings, and the number of temporaries handed out. -/
structure Scoping where
  temps : Nat
  visible : Visible

namespace Scoping

/-- The variables that get the values of some names, and the number of temporaries handed out
    after that: the variable that holds a name, or else a new temporary. -/
def holders : List String → Scoping → List Holder × Nat
  | [], σ => ([], σ.temps)
  | name :: names, σ =>
    match σ.visible.holder? name with
    | some x =>
      let (xs, temps) := holders names σ
      (x :: xs, temps)
    | none =>
      let (xs, temps) := holders names { σ with temps := σ.temps + 1 }
      (.temporary (σ.temps + 1) :: xs, temps)

/-- Names become visible, the later ones inside the earlier ones. -/
def bind (entries : Visible) (σ : Scoping) : Scoping :=
  { σ with visible := entries.reverse ++ σ.visible }

end Scoping

/-- A step of a template, as far as variables are concerned. -/
inductive Flow where
  /-- A symbol stands where some bindings are visible. -/
  | symbol (pos : Position) (name : String) (visible : Visible)
  /-- Variables get a value. -/
  | assign (holders : List Holder)
  | branch (body otherwise : List Flow)
  /-- A loop, which has three temporaries of its own after the first `first` ones: for what it
      runs over, for the number of items and for the number of the item. -/
  | loop (first : Nat) (body : List Flow) (hasElse : Bool) (otherwise : List Flow)
  | function (params : List String) (body : List Flow)
  | block (b : PendingBlock)
  | parent

/-- The targets of a loop with their temporaries. -/
def loopTargets (first : Nat) (targets : List String) : Visible :=
  (targets.zip (List.range' (first + 4) targets.length)).map fun (target, index) =>
    (target, some (.temporary index))

/-- The targets of a loop get their values, one after the other. -/
def loopAssignments (first count : Nat) : List Flow :=
  (List.range' (first + 4) count).map fun index => .assign [.temporary index]

/-- The parameters that a local variable holds: those without a default. -/
def positionalNames (params : List (String × Bool)) : List String :=
  (params.filter fun p => !p.2).map (·.1)

/-- The binding of a parameter. -/
def parameterBinding : String × Bool → String × Option Holder
  | (param, hasDefault) => (param, if hasDefault then none else some (.parameter param))

namespace Outline

mutual

/-- The flow of a step, and what is visible after it. -/
def flow : Outline → Scoping → List Flow × Scoping
  | symbol pos name, σ => ([.symbol pos name σ.visible], σ)
  | assign names, σ =>
    let (holders, temps) := σ.holders names
    ([.assign holders], Scoping.bind (names.zip (holders.map some)) { σ with temps := temps })
  | define name inner, σ =>
    let (before, τ) := flowAll inner { σ with temps := σ.temps + 1 }
    let x : Holder := .temporary (σ.temps + 1)
    (before ++ [.assign [x]], Scoping.bind (name.toList.map fun name => (name, some x)) τ)
  | branch body otherwise, σ =>
    let (first, τ) := flowAll body σ
    let (second, υ) := flowAll otherwise τ
    ([.branch first second], υ)
  | loop targets body hasElse otherwise, σ =>
    let inside : Scoping := { σ with temps := σ.temps + 3 + targets.length }
    let (first, τ) := flowAll body (inside.bind (loopTargets σ.temps targets))
    let (second, υ) := flowAll otherwise { σ with temps := τ.temps }
    ([.loop σ.temps (loopAssignments σ.temps targets.length ++ first) hasElse second], υ)
  | function params defaults body, σ =>
    -- A default sees the parameters without one, which have their values by then.
    let positional := (positionalNames params).map fun param => (param, some (.parameter param))
    let (before, τ) := flowAll defaults (σ.bind positional)
    let (inside, υ) :=
      flowAll body (Scoping.bind (params.map parameterBinding) { σ with temps := τ.temps })
    ([.function (positionalNames params) (before ++ inside)], { σ with temps := υ.temps })
  | block b, σ => ([.block b], σ)
  | parent, σ => ([.parent], σ)

/-- The flow of some steps, and what is visible after them. -/
def flowAll : List Outline → Scoping → List Flow × Scoping
  | [], σ => ([], σ)
  | step :: steps, σ =>
    let (first, τ) := flow step σ
    let (second, υ) := flowAll steps τ
    (first ++ second, υ)

end

theorem flowAll_append (steps steps' : List Outline) (σ : Scoping) :
    flowAll (steps ++ steps') σ =
      ((flowAll steps σ).1 ++ (flowAll steps' (flowAll steps σ).2).1,
        (flowAll steps' (flowAll steps σ).2).2) := by
  induction steps generalizing σ with
  | nil => rfl
  | cons step steps ih => simp [flowAll, ih]

theorem flowAll_singleton (step : Outline) (σ : Scoping) : flowAll [step] σ = step.flow σ := by
  simp [flowAll]

end Outline

namespace Flow

mutual

/-- The symbols, blocks and parents in a flow, in their order. -/
def leaves : Flow → List Outline
  | symbol pos name _ => [.symbol pos name]
  | block b => [.block b]
  | parent => [.parent]
  | assign _ => []
  | branch body otherwise | loop _ body _ otherwise => leavesAll body ++ leavesAll otherwise
  | function _ body => leavesAll body

/-- The symbols, blocks and parents in some flows. -/
def leavesAll : List Flow → List Outline
  | [] => []
  | step :: flow => step.leaves ++ leavesAll flow

end

@[simp]
theorem leavesAll_append (flow flow' : List Flow) :
    leavesAll (flow ++ flow') = leavesAll flow ++ leavesAll flow' := by
  induction flow with
  | nil => rfl
  | cons step flow ih => simp [leavesAll, ih]

theorem leavesAll_loopAssignments (first count : Nat) :
    leavesAll (loopAssignments first count) = [] := by
  unfold loopAssignments
  generalize first + 4 = start
  induction count generalizing start with
  | zero => rfl
  | succ count ih => exact ih (start + 1)

end Flow

mutual

/-- A flow has the leaves of its outline. -/
theorem Outline.leaves_flow : ∀ (step : Outline) (σ : Scoping),
    Flow.leavesAll (step.flow σ).1 = step.leaves
  | .symbol _ _, σ | .assign _, σ | .block _, σ | .parent, σ => rfl
  | .define name inner, σ => by
    simp [flow, leaves, Flow.leavesAll, Flow.leaves, Outline.leaves_flowAll inner]
  | .branch body otherwise, σ => by
    simp [flow, leaves, Flow.leavesAll, Flow.leaves, Outline.leaves_flowAll body,
      Outline.leaves_flowAll otherwise]
  | .loop targets body hasElse otherwise, σ => by
    simp [flow, leaves, Flow.leavesAll, Flow.leaves, Flow.leavesAll_loopAssignments,
      Outline.leaves_flowAll body, Outline.leaves_flowAll otherwise]
  | .function params defaults body, σ => by
    simp [flow, leaves, Flow.leavesAll, Flow.leaves, Outline.leaves_flowAll defaults,
      Outline.leaves_flowAll body]

theorem Outline.leaves_flowAll : ∀ (steps : List Outline) (σ : Scoping),
    Flow.leavesAll (flowAll steps σ).1 = leavesAll steps
  | [], σ => rfl
  | step :: steps, σ => by
    simp [flowAll, leavesAll, Outline.leaves_flow step, Outline.leaves_flowAll steps]

end

end TemplateManifest
