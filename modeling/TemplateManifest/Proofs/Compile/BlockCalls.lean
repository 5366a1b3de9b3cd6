import TemplateManifest.Compile.Template
import TemplateManifest.Proofs.Script.BlockCalls

/-!
The calls of blocks in the forms of emitted code. No form fetches a block of its own accord: each has
the calls of its parts, in their order.
-/

namespace TemplateManifest

open Script Vocabulary

section Expressions

@[simp]
theorem blockCalls_operandCode (inSum : Bool) (node : Node) (code : Expr) :
    blockCalls (node.operandCode inSum code).parts = blockCalls code.parts := by
  unfold Node.operandCode
  split
  · exact blockCalls_paren code
  · rfl

@[simp]
theorem blockCalls_binaryCode (op : BinaryOp) (left right : Expr) :
    blockCalls (op.code left right).parts = blockCalls left.parts ++ blockCalls right.parts := by
  cases op <;> simp (disch := decide) [BinaryOp.code]

namespace CodeContext

variable {cx : CodeContext}

@[simp]
theorem blockCalls_awaitedIf (isAsync : Bool) (call : Expr) :
    blockCalls (awaitedIf isAsync call).parts = blockCalls call.parts := by
  cases isAsync <;> simp [awaitedIf, awaited]

@[simp]
theorem blockCalls_awaitedIfAsync (call : Expr) :
    blockCalls (cx.awaitedIfAsync call).parts = blockCalls call.parts :=
  blockCalls_awaitedIf cx.isAsync call

@[simp]
theorem blockCalls_getTemplate (target : Expr) (flags : Bool × Option Bool) :
    blockCalls (cx.getTemplate target flags).parts = blockCalls target.parts := by
  obtain ⟨eager, ignore⟩ := flags
  cases ignore <;> simp (disch := decide) [getTemplate]

@[simp]
theorem blockCalls_extensionCode (e : Extension) (extensionMethod : String) (isAsync : Bool)
    (args : List Expr) :
    blockCalls (extensionCode e extensionMethod isAsync args).parts =
      blockCalls (Expr.partsAll args) := by
  simp (disch := decide) [extensionCode]

@[simp]
theorem blockCalls_callCode (pos : Position) (called : Expr) (callee : String) (args : List Expr) :
    blockCalls (callCode pos called callee args).parts =
      blockCalls called.parts ++ blockCalls (Expr.partsAll args) := by
  simp (disch := decide) [callCode]

@[simp]
theorem blockCalls_closure (body : List Stmt) :
    blockCalls (cx.closure body).parts = blockCalls (Stmt.partsAll body) := by
  simp [closure, Stmt.parts]

end CodeContext

end Expressions

section Statements

@[simp]
theorem blockCalls_setFrame (symbol : String) (value : Expr) :
    blockCalls (setFrame symbol value).parts = blockCalls value.parts := by
  simp (disch := decide) [setFrame, Stmt.parts]

@[simp]
theorem blockCalls_pushFrame (args : List Expr) :
    blockCalls (pushFrame args).parts = blockCalls (Expr.partsAll args) := by
  simp (disch := decide) [pushFrame, Stmt.parts]

@[simp]
theorem blockCalls_popFrame : blockCalls popFrame.parts = [] := rfl

@[simp]
theorem blockCalls_prologue : blockCalls (Stmt.partsAll prologue) = [] := rfl

@[simp]
theorem blockCalls_dataCode (text : String) : blockCalls (Stmt.partsAll (dataCode text)) = [] := by
  unfold dataCode
  split <;> rfl

@[simp]
theorem blockCalls_outputValue (value : Expr) (autoescape : Bool) :
    blockCalls (outputValue value autoescape).parts = blockCalls value.parts := by
  simp (disch := decide) [outputValue, Stmt.parts]

@[simp]
theorem blockCalls_publish (symbol : String) (v : Variable) :
    blockCalls (Stmt.partsAll (publish symbol v)) = [] := by
  unfold publish
  split <;> simp (disch := decide) [Stmt.parts]

theorem blockCalls_assignment (holders : List Variable) (value : Expr)
    (entries : List (String × Variable)) :
    blockCalls (Stmt.partsAll (holders.map (fun v => .declare v none) ++ .assignAll holders value ::
      entries.flatMap fun (target, v) => publish target v)) = blockCalls value.parts := by
  have hdeclared : blockCalls (Stmt.partsAll (holders.map fun v => .declare v none)) = [] := by
    refine blockCalls_statements_eq_nil fun s hs => ?_
    obtain ⟨v, -, rfl⟩ := List.mem_map.mp hs
    rfl
  have hpublished : blockCalls (Stmt.partsAll
      (entries.flatMap fun (target, v) => publish target v)) = [] := by
    induction entries with
    | nil => rfl
    | cons entry entries ih => simp [ih]
  simp [Stmt.parts, hdeclared, hpublished]

@[simp]
theorem blockCalls_memberCode (module : Variable) (exported : String) (v : Variable) :
    blockCalls (Stmt.partsAll (CodeContext.memberCode module exported v)) = [] := by
  simp [CodeContext.memberCode, Stmt.parts]

theorem blockCalls_loopCode (arr len i : Variable) (iterated : Expr)
    (targets : List (String × Variable)) (body : List Stmt) (otherwise : Option (List Stmt)) :
    blockCalls (Stmt.partsAll (loopCode arr len i iterated targets body otherwise)) =
      blockCalls iterated.parts ++
        (blockCalls (Stmt.partsAll body) ++ blockCalls (Stmt.partsAll (otherwise.getD []))) := by
  have hitem (n : Nat) (unpack : Prop) [Decidable unpack] : blockCalls (if unpack then
      Expr.index (.index (.variable arr) (.variable i)) (number n)
      else Expr.index (.variable arr) (.variable i)).parts = [] := by
    split <;> simp
  have hbindings : blockCalls (Stmt.partsAll (targets.zipIdx.flatMap fun entry =>
      [.declare entry.1.2 (some (if 1 < targets.length then
        Expr.index (.index (.variable arr) (.variable i)) (number entry.2)
        else Expr.index (.variable arr) (.variable i))),
       setFrame entry.1.1 (.variable entry.1.2)])) = [] := by
    refine blockCalls_statements_eq_nil fun s hs => ?_
    obtain ⟨entry, -, hs⟩ := List.mem_flatMap.mp hs
    simp only [List.mem_cons, List.not_mem_nil, or_false] at hs
    obtain rfl | rfl := hs
    · exact hitem _ _
    · simp
  have hunpack : blockCalls (Stmt.partsAll (if 1 < targets.length then
      [Stmt.assignAll [arr] (.conditional (runtime "isArray" [.variable arr]) (.variable arr)
        (method (name "Object") "entries" [.variable arr]))] else [])) = [] := by
    split <;> simp (disch := decide) [Stmt.parts]
  unfold loopCode
  cases otherwise with
  | none => simp (disch := decide) [Stmt.parts, hunpack, hbindings]
  | some otherwise => simp (disch := decide) [Stmt.parts, hunpack, hbindings]

/-- The settings of the defaults of a macro. -/
theorem blockCalls_defaults (defaults : List (String × Expr)) (setting : String × Expr → Stmt)
    (h : ∀ entry, blockCalls (setting entry).parts = blockCalls entry.2.parts) :
    blockCalls (Stmt.partsAll (defaults.map setting)) =
      blockCalls (Expr.partsAll (defaults.map (·.2))) := by
  induction defaults with
  | nil => rfl
  | cons entry defaults ih => simp [h, ih]

theorem blockCalls_makeMacro (cx : CodeContext) (isCaller : Bool) (positional : List String)
    (defaults : List (String × Expr)) (body : List Stmt) :
    blockCalls (cx.makeMacro isCaller positional defaults body).parts =
      blockCalls (Expr.partsAll (defaults.map (·.2))) ++ blockCalls (Stmt.partsAll body) := by
  have hquoted (names : List String) : blockCalls (Expr.partsAll (names.map Expr.string)) = [] := by
    induction names with
    | nil => rfl
    | cons name names ih => simp [ih]
  have hframe : blockCalls (if isCaller then pushFrame [truth true] else
      Stmt.assignAll [.named "frame"] (.create (.member (name "runtime") "Frame") [])).parts = [] := by
    cases isCaller <;> simp [Stmt.parts]
  have hpositional : blockCalls (Stmt.partsAll
      (positional.map fun p => setFrame p (.variable (.param p)))) = [] := by
    refine blockCalls_statements_eq_nil fun s hs => ?_
    obtain ⟨p, -, rfl⟩ := List.mem_map.mp hs
    simp
  have hdefaults := blockCalls_defaults defaults (fun entry => setFrame entry.1
    (.conditional (hasOwn (name "kwargs") (.string entry.1))
      (.index (name "kwargs") (.string entry.1)) entry.2)) fun entry => by simp
  unfold CodeContext.makeMacro
  simp (disch := decide) [Stmt.parts, hquoted, hframe, hpositional, hdefaults, -List.map_map]

end Statements

end TemplateManifest
