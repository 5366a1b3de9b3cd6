import TemplateManifest.Compile.Vocabulary
import TemplateManifest.Proofs.Script.Parts

/-!
The calls in emitted code that fetch the functions of blocks, in their order. Each is told from one
expression alone, so that the calls in some code are those in all its parts.
-/

namespace TemplateManifest

open Vocabulary

/-- The call that fetches the function of a block. -/
def Vocabulary.getBlock (blockName : String) : Script.Expr :=
  method (name "context") "getBlock" [.string blockName]

namespace Script

/-- The expression calls a method `getBlock`, of whatever object. -/
def Expr.fetchesBlock : Expr → Bool
  | .call (.member _ field) _ => field = "getBlock"
  | _ => false

theorem Expr.fetchesBlock_method {target : Expr} {field : String} {args : List Expr}
    (h : field ≠ "getBlock") : (method target field args).fetchesBlock = false :=
  decide_eq_false h

/-- The calls of a method `getBlock` among some expressions. -/
def blockCalls (parts : List Expr) : List Expr :=
  parts.filter Expr.fetchesBlock

@[simp]
theorem blockCalls_nil : blockCalls [] = [] := rfl

@[simp]
theorem blockCalls_append (parts parts' : List Expr) :
    blockCalls (parts ++ parts') = blockCalls parts ++ blockCalls parts' :=
  List.filter_append ..

/-- An expression that fetches no block has the calls of its parts. -/
theorem blockCalls_cons_of_not {e : Expr} {parts : List Expr} (h : e.fetchesBlock = false) :
    blockCalls (e :: parts) = blockCalls parts :=
  List.filter_cons_of_neg (Bool.not_eq_true _ ▸ h)

section Lists

@[simp]
theorem blockCalls_expressions_nil : blockCalls (Expr.partsAll []) = [] := rfl

@[simp]
theorem blockCalls_expressions_cons (e : Expr) (es : List Expr) :
    blockCalls (Expr.partsAll (e :: es)) = blockCalls e.parts ++ blockCalls (Expr.partsAll es) :=
  blockCalls_append _ _

@[simp]
theorem blockCalls_entries_nil : blockCalls (Expr.partsEntries []) = [] := rfl

@[simp]
theorem blockCalls_entries_cons (key value : Expr) (entries : List (Expr × Expr)) :
    blockCalls (Expr.partsEntries ((key, value) :: entries)) =
      blockCalls key.parts ++ (blockCalls value.parts ++ blockCalls (Expr.partsEntries entries)) := by
  rw [Expr.partsEntries, blockCalls_append, blockCalls_append]

@[simp]
theorem blockCalls_statements_nil : blockCalls (Stmt.partsAll []) = [] := rfl

@[simp]
theorem blockCalls_statements_cons (s : Stmt) (body : List Stmt) :
    blockCalls (Stmt.partsAll (s :: body)) = blockCalls s.parts ++ blockCalls (Stmt.partsAll body) :=
  blockCalls_append _ _

theorem blockCalls_statements_eq_nil {body : List Stmt} (h : ∀ s ∈ body, blockCalls s.parts = []) :
    blockCalls (Stmt.partsAll body) = [] := by
  induction body with
  | nil => rfl
  | cons s body ih =>
    obtain ⟨hs, hbody⟩ := List.forall_mem_cons.mp h
    rw [blockCalls_statements_cons, hs, ih hbody, List.nil_append]

end Lists

section Expressions

variable {target : Expr} {field : String} {args : List Expr}

@[simp]
theorem blockCalls_variable (v : Variable) : blockCalls (Expr.variable v).parts = [] := rfl

@[simp]
theorem blockCalls_name (text : String) : blockCalls (name text).parts = [] := rfl

@[simp]
theorem blockCalls_constant (text : String) : blockCalls (Expr.constant text).parts = [] := rfl

@[simp]
theorem blockCalls_string (value : String) : blockCalls (Expr.string value).parts = [] := rfl

@[simp]
theorem blockCalls_truth (value : Bool) : blockCalls (truth value).parts = [] := rfl

@[simp]
theorem blockCalls_number (value : Nat) : blockCalls (number value).parts = [] := rfl

@[simp]
theorem blockCalls_literal (value : Literal) : blockCalls (literal value).parts = [] := by
  cases value <;> rfl

@[simp]
theorem blockCalls_member : blockCalls (Expr.member target field).parts = blockCalls target.parts :=
  blockCalls_cons_of_not rfl

@[simp]
theorem blockCalls_index (key : Expr) :
    blockCalls (Expr.index target key).parts = blockCalls target.parts ++ blockCalls key.parts := by
  rw [Expr.parts, blockCalls_cons_of_not rfl, blockCalls_append]

@[simp]
theorem blockCalls_paren (inner : Expr) :
    blockCalls (Expr.paren inner).parts = blockCalls inner.parts :=
  blockCalls_cons_of_not rfl

@[simp]
theorem blockCalls_array (items : List Expr) :
    blockCalls (Expr.array items).parts = blockCalls (Expr.partsAll items) :=
  blockCalls_cons_of_not rfl

@[simp]
theorem blockCalls_object (entries : List (Expr × Expr)) :
    blockCalls (Expr.object entries).parts = blockCalls (Expr.partsEntries entries) :=
  blockCalls_cons_of_not rfl

@[simp]
theorem blockCalls_operation (op : Operator) (left right : Expr) :
    blockCalls (Expr.operation op left right).parts =
      blockCalls left.parts ++ blockCalls right.parts := by
  rw [Expr.parts, blockCalls_cons_of_not rfl, blockCalls_append]

@[simp]
theorem blockCalls_signed (sign : Sign) (operand : Expr) :
    blockCalls (Expr.signed sign operand).parts = blockCalls operand.parts :=
  blockCalls_cons_of_not rfl

@[simp]
theorem blockCalls_conditional (cond yes no : Expr) :
    blockCalls (Expr.conditional cond yes no).parts =
      blockCalls cond.parts ++ (blockCalls yes.parts ++ blockCalls no.parts) := by
  rw [Expr.parts, blockCalls_cons_of_not rfl, blockCalls_append, blockCalls_append]

@[simp]
theorem blockCalls_create (constructor : Expr) :
    blockCalls (Expr.create constructor args).parts =
      blockCalls constructor.parts ++ blockCalls (Expr.partsAll args) := by
  rw [Expr.parts, blockCalls_cons_of_not rfl, blockCalls_append]

@[simp]
theorem blockCalls_await (promise : Expr) :
    blockCalls (Expr.await promise).parts = blockCalls promise.parts :=
  blockCalls_cons_of_not rfl

@[simp]
theorem blockCalls_assign (v : Variable) (value : Expr) :
    blockCalls (Expr.assign v value).parts = blockCalls value.parts :=
  blockCalls_cons_of_not rfl

@[simp]
theorem blockCalls_sequence (items : List Expr) :
    blockCalls (Expr.sequence items).parts = blockCalls (Expr.partsAll items) :=
  blockCalls_cons_of_not rfl

@[simp]
theorem blockCalls_function (isAsync : Bool) (params : List Variable) (body : List Stmt) :
    blockCalls (Expr.function isAsync params body).parts = blockCalls (Stmt.partsAll body) :=
  blockCalls_cons_of_not rfl

@[simp]
theorem blockCalls_ofNode (node : Node) (code : Expr) :
    blockCalls (Expr.ofNode node code).parts = blockCalls code.parts :=
  blockCalls_cons_of_not rfl

@[simp]
theorem blockCalls_call_index (key : Expr) :
    blockCalls (Expr.call (.index target key) args).parts =
      blockCalls target.parts ++ blockCalls key.parts ++ blockCalls (Expr.partsAll args) := by
  rw [Expr.parts, blockCalls_cons_of_not rfl, blockCalls_append, blockCalls_index]

@[simp]
theorem blockCalls_call_paren (inner : Expr) :
    blockCalls (Expr.call (.paren inner) args).parts =
      blockCalls inner.parts ++ blockCalls (Expr.partsAll args) := by
  rw [Expr.parts, blockCalls_cons_of_not rfl, blockCalls_append, blockCalls_paren]

@[simp]
theorem blockCalls_call_method (inner : List Expr) :
    blockCalls (Expr.call (method target field inner) args).parts =
      blockCalls (method target field inner).parts ++ blockCalls (Expr.partsAll args) := by
  rw [Expr.parts, blockCalls_cons_of_not rfl, blockCalls_append]

@[simp]
theorem blockCalls_method (h : field ≠ "getBlock") :
    blockCalls (method target field args).parts =
      blockCalls target.parts ++ blockCalls (Expr.partsAll args) := by
  have hcall : (Expr.call (.member target field) args).fetchesBlock = false :=
    Expr.fetchesBlock_method h
  rw [method, Expr.parts, blockCalls_cons_of_not hcall, blockCalls_append, blockCalls_member]

@[simp]
theorem blockCalls_getBlock (blockName : String) :
    blockCalls (getBlock blockName).parts = [getBlock blockName] := rfl

@[simp]
theorem blockCalls_runtime (h : field ≠ "getBlock") :
    blockCalls (runtime field args).parts = blockCalls (Expr.partsAll args) := by
  rw [runtime, blockCalls_method h, blockCalls_name, List.nil_append]

@[simp]
theorem blockCalls_contextLookup (symbol : String) :
    blockCalls (contextLookup symbol).parts = [] := rfl

@[simp]
theorem blockCalls_hasOwn (object key : Expr) :
    blockCalls (hasOwn object key).parts = blockCalls object.parts ++ blockCalls key.parts := by
  simp (disch := decide) [hasOwn]

@[simp]
theorem blockCalls_renderArguments : blockCalls (Expr.partsAll renderArguments) = [] := rfl

end Expressions

end Script

end TemplateManifest
