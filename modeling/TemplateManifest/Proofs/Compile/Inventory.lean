import Mathlib.Tactic.Abel
import TemplateManifest.Proofs.Script.Inventory

/-!
The inventories of the forms of emitted code: each is that of its parts, and what the form itself
adds to them.
-/

namespace TemplateManifest

open Script Vocabulary

section Expressions

@[simp]
theorem inventory_operandCode (inSum : Bool) (node : Node) (code : Expr) :
    inventory (node.operandCode inSum code).parts = inventory code.parts := by
  unfold Node.operandCode
  split
  · exact inventory_paren code
  · rfl

@[simp]
theorem inventory_binaryCode (op : BinaryOp) (left right : Expr) :
    inventory (op.code left right).parts = inventory left.parts + inventory right.parts := by
  cases op <;> simp (disch := decide) [BinaryOp.code]

namespace CodeContext

variable {cx : CodeContext}

/-- What is counted when a call is awaited. -/
def waits (isAsync : Bool) (called : Option Fetch) : Multiset Feature :=
  if isAsync then {.await called} else 0

@[simp]
theorem inventory_awaitedIf (isAsync : Bool) (call : Expr) :
    inventory (awaitedIf isAsync call).parts = waits isAsync call.called? + inventory call.parts := by
  cases isAsync with
  | true => simp [awaitedIf, awaited, waits]
  | false => simp [awaitedIf, waits]

@[simp]
theorem inventory_awaitedIfAsync (call : Expr) :
    inventory (cx.awaitedIfAsync call).parts =
      waits cx.isAsync call.called? + inventory call.parts :=
  inventory_awaitedIf cx.isAsync call

@[simp]
theorem inventory_getTemplate (target : Expr) (flags : Bool × Option Bool) :
    inventory (cx.getTemplate target flags).parts =
      waits cx.isAsync none + inventory target.parts := by
  obtain ⟨eager, ignore⟩ := flags
  cases ignore <;> simp (disch := decide) [getTemplate]

@[simp]
theorem inventory_extensionCode (e : Extension) (extensionMethod : String) (isAsync : Bool)
    (args : List Expr) :
    inventory (extensionCode e extensionMethod isAsync args).parts =
      waits (isAsync || e.form.isAsync) (some (.extension e.name)) +
        {.fetch (.extension e.name)} + inventory (Expr.partsAll args) := by
  simp [extensionCode, add_assoc]

@[simp]
theorem inventory_callCode (pos : Position) (called : Expr) (callee : String) (args : List Expr) :
    inventory (callCode pos called callee args).parts =
      inventory called.parts + inventory (Expr.partsAll args) := by
  simp (disch := decide) [callCode]

@[simp]
theorem inventory_closure (body : List Stmt) :
    inventory (cx.closure body).parts = .function cx.isAsync ::ₘ inventory (Stmt.partsAll body) := by
  simp [closure, Stmt.parts]

end CodeContext

end Expressions

section Statements

@[simp]
theorem inventory_setFrame (symbol : String) (value : Expr) :
    inventory (setFrame symbol value).parts = inventory value.parts := by
  simp (disch := decide) [setFrame, Stmt.parts]

@[simp]
theorem inventory_pushFrame (args : List Expr) :
    inventory (pushFrame args).parts = inventory (Expr.partsAll args) := by
  simp (disch := decide) [pushFrame, Stmt.parts]

@[simp]
theorem inventory_popFrame : inventory popFrame.parts = 0 := rfl

@[simp]
theorem inventory_prologue : inventory (Stmt.partsAll prologue) = 0 := rfl

@[simp]
theorem inventory_dataCode (text : String) : inventory (Stmt.partsAll (dataCode text)) = 0 := by
  unfold dataCode
  split <;> rfl

@[simp]
theorem inventory_outputValue (value : Expr) (autoescape : Bool) :
    inventory (outputValue value autoescape).parts = inventory value.parts := by
  simp (disch := decide) [outputValue, Stmt.parts]

@[simp]
theorem inventory_publish (symbol : String) (v : Variable) :
    inventory (Stmt.partsAll (publish symbol v)) = 0 := by
  unfold publish
  split <;> simp (disch := decide) [Stmt.parts]

theorem inventory_assignment (holders : List Variable) (value : Expr)
    (entries : List (String × Variable)) :
    inventory (Stmt.partsAll (holders.map (fun v => .declare v none) ++ .assignAll holders value ::
      entries.flatMap fun (target, v) => publish target v)) = inventory value.parts := by
  have hdeclared : inventory (Stmt.partsAll (holders.map fun v => .declare v none)) = 0 := by
    refine inventory_statements_eq_zero fun s hs => ?_
    obtain ⟨v, -, rfl⟩ := List.mem_map.mp hs
    rfl
  have hpublished : inventory (Stmt.partsAll
      (entries.flatMap fun (target, v) => publish target v)) = 0 := by
    induction entries with
    | nil => rfl
    | cons entry entries ih => simp [ih]
  simp [Stmt.parts, hdeclared, hpublished]

@[simp]
theorem inventory_memberCode (module : Variable) (exported : String) (v : Variable) :
    inventory (Stmt.partsAll (CodeContext.memberCode module exported v)) = 0 := by
  simp [CodeContext.memberCode, Stmt.parts]

theorem inventory_loopCode (arr len i : Variable) (iterated : Expr)
    (targets : List (String × Variable)) (body : List Stmt) (otherwise : Option (List Stmt)) :
    inventory (Stmt.partsAll (loopCode arr len i iterated targets body otherwise)) =
      inventory iterated.parts + inventory (Stmt.partsAll body) +
        inventory (Stmt.partsAll (otherwise.getD [])) := by
  have hitem (n : Nat) (unpack : Prop) [Decidable unpack] : inventory (if unpack then
      Expr.index (.index (.variable arr) (.variable i)) (number n)
      else Expr.index (.variable arr) (.variable i)).parts = 0 := by
    split <;> simp
  have hbindings : inventory (Stmt.partsAll (targets.zipIdx.flatMap fun entry =>
      [.declare entry.1.2 (some (if 1 < targets.length then
        Expr.index (.index (.variable arr) (.variable i)) (number entry.2)
        else Expr.index (.variable arr) (.variable i))),
       setFrame entry.1.1 (.variable entry.1.2)])) = 0 := by
    refine inventory_statements_eq_zero fun s hs => ?_
    obtain ⟨entry, -, hs⟩ := List.mem_flatMap.mp hs
    simp only [List.mem_cons, List.not_mem_nil, or_false] at hs
    obtain rfl | rfl := hs
    · exact hitem _ _
    · simp
  have hunpack : inventory (Stmt.partsAll (if 1 < targets.length then
      [Stmt.assignAll [arr] (.conditional (runtime "isArray" [.variable arr]) (.variable arr)
        (method (name "Object") "entries" [.variable arr]))] else [])) = 0 := by
    split <;> simp (disch := decide) [Stmt.parts]
  unfold loopCode
  cases otherwise with
  | none =>
    simp (disch := decide) [Stmt.parts, hunpack, hbindings]
  | some otherwise =>
    simp (disch := decide) [Stmt.parts, hunpack, hbindings, add_assoc]

/-- The settings of the defaults of a macro. -/
theorem inventory_defaults (defaults : List (String × Expr)) (setting : String × Expr → Stmt)
    (h : ∀ entry, inventory (setting entry).parts = inventory entry.2.parts) :
    inventory (Stmt.partsAll (defaults.map setting)) =
      inventory (Expr.partsAll (defaults.map (·.2))) := by
  induction defaults with
  | nil => rfl
  | cons entry defaults ih => simp [h, ih]

theorem inventory_makeMacro (cx : CodeContext) (isCaller : Bool) (positional : List String)
    (defaults : List (String × Expr)) (body : List Stmt) :
    inventory (cx.makeMacro isCaller positional defaults body).parts =
      .function cx.isAsync ::ₘ
        (inventory (Expr.partsAll (defaults.map (·.2))) + inventory (Stmt.partsAll body)) := by
  have hquoted (names : List String) :
      inventory (Expr.partsAll (names.map Expr.string)) = 0 := by
    induction names with
    | nil => rfl
    | cons name names ih => simp [ih]
  have hframe : inventory (if isCaller then pushFrame [truth true] else
      Stmt.assignAll [.named "frame"] (.create (.member (name "runtime") "Frame") [])).parts = 0 := by
    cases isCaller <;> simp [Stmt.parts]
  have hpositional : inventory (Stmt.partsAll
      (positional.map fun p => setFrame p (.variable (.param p)))) = 0 := by
    refine inventory_statements_eq_zero fun s hs => ?_
    obtain ⟨p, -, rfl⟩ := List.mem_map.mp hs
    simp
  have hdefaults := inventory_defaults defaults (fun entry => setFrame entry.1
    (.conditional (hasOwn (name "kwargs") (.string entry.1))
      (.index (name "kwargs") (.string entry.1)) entry.2)) fun entry => by simp
  unfold CodeContext.makeMacro
  simp (disch := decide) [Stmt.parts, hquoted, hframe, hpositional, hdefaults, -List.map_map]

end Statements

end TemplateManifest
