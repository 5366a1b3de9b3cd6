import Mathlib.Data.List.Basic
import TemplateManifest.Compile.Code

/-!
What the emitted script does with variables. The uses of an expression are what it does where it
stands; a function in it is one use, whatever its body does when it runs.
-/

namespace TemplateManifest

open Vocabulary

namespace Script

/-- One thing that an expression does with variables. -/
inductive Use where
  | read (v : Variable)
  | write (v : Variable)
  /-- The code of a symbol of the template stands here. -/
  | symbol (pos : Position) (name : String) (code : Expr)
  | function (params : List Variable) (body : List Stmt)

/-- The use that the code of a symbol is. -/
def symbolUse : Node → Expr → List Use
  | .symbol pos name, code => [.symbol pos name code]
  | _, _ => []

mutual

/-- What an expression does with variables, from left to right. -/
def Expr.uses : Expr → List Use
  | .variable v => [.read v]
  | .constant _ | .string _ => []
  | .member inner _ | .paren inner | .signed _ inner | .await inner => inner.uses
  | .index target key => target.uses ++ key.uses
  | .call callee args | .create callee args => callee.uses ++ Expr.usesAll args
  | .array items | .sequence items => Expr.usesAll items
  | .object entries => Expr.usesEntries entries
  | .operation _ left right => left.uses ++ right.uses
  | .conditional cond yes no => cond.uses ++ (yes.uses ++ no.uses)
  | .assign v value => .write v :: value.uses
  | .function _ params body => [.function params body]
  | .ofNode node code => symbolUse node code ++ code.uses

/-- What some expressions do with variables. -/
def Expr.usesAll : List Expr → List Use
  | [] => []
  | e :: es => e.uses ++ Expr.usesAll es

/-- What the entries of an object do with variables. -/
def Expr.usesEntries : List (Expr × Expr) → List Use
  | [] => []
  | (key, value) :: entries => key.uses ++ (value.uses ++ Expr.usesEntries entries)

end

attribute [local simp] Expr.uses Expr.usesAll Expr.usesEntries

namespace Stmt

/-- What a statement itself does with variables, the statements inside it apart. A loop that
    counts reads its counter only after it has set it. -/
@[simp]
def uses : Stmt → List Use
  | .declare _ none => []
  | .declare v (some value) => .write v :: value.uses
  | .assignAll targets value => targets.map .write ++ value.uses
  | .append v value => .read v :: .write v :: value.uses
  | .run value | .throw value | .return value => value.uses
  | .branch cond _ | .branchElse cond _ _ | .guard cond _ | .guardElse cond _ _ => cond.uses
  | .countTo counter limit _ => [.write counter, .read limit]
  | .forKeys key object _ => .write key :: object.uses

/-- The bodies inside a statement. -/
@[simp]
def bodies : Stmt → List (List Stmt)
  | .branch _ body | .guard _ body | .countTo _ _ body | .forKeys _ _ body => [body]
  | .branchElse _ body otherwise | .guardElse _ body otherwise => [body, otherwise]
  | _ => []

mutual

/-- The variables that a statement declares, for the whole function in which it stands. -/
@[simp]
def declares : Stmt → List Variable
  | .declare v _ => [v]
  | .branch _ body | .guard _ body => declaresAll body
  | .branchElse _ body otherwise | .guardElse _ body otherwise =>
    declaresAll body ++ declaresAll otherwise
  | .countTo v _ body | .forKeys v _ body => v :: declaresAll body
  | .assignAll _ _ | .append _ _ | .run _ | .throw _ | .return _ => []

/-- The variables that some statements declare. -/
@[simp]
def declaresAll : List Stmt → List Variable
  | [] => []
  | s :: body => s.declares ++ declaresAll body

end

@[simp]
theorem declaresAll_append (body body' : List Stmt) :
    declaresAll (body ++ body') = declaresAll body ++ declaresAll body' := by
  induction body with
  | nil => rfl
  | cons s body ih => simp [declaresAll, ih]

end Stmt

@[simp]
theorem Expr.usesAll_append (es es' : List Expr) :
    Expr.usesAll (es ++ es') = Expr.usesAll es ++ Expr.usesAll es' := by
  induction es with
  | nil => rfl
  | cons e es ih => simp [ih]

/-- The variables of fixed names that stand in emitted code everywhere: those that every render
    function declares, and those of the target language. -/
def commonNames : List String :=
  ["env", "context", "frame", "runtime", "lineno", "colno", "output", "Math", "Object", "Error"]

/-- The variable is one of those that stand in emitted code everywhere. -/
def Variable.isCommon : Variable → Bool
  | .named name => name ∈ commonNames
  | .temp _ | .param _ => false

/-- The use is of more than a common variable. -/
def Use.isNotable : Use → Bool
  | .read v | .write v => !v.isCommon
  | .symbol _ _ _ | .function _ _ => true

namespace Expr

/-- What an expression does with variables other than the common ones. -/
def notable (e : Expr) : List Use :=
  e.uses.filter Use.isNotable

/-- What some expressions do with variables other than the common ones. -/
def notableAll (es : List Expr) : List Use :=
  (usesAll es).filter Use.isNotable

@[simp]
theorem notableAll_nil : notableAll [] = [] := rfl

@[simp]
theorem notableAll_cons (e : Expr) (es : List Expr) :
    notableAll (e :: es) = e.notable ++ notableAll es := by
  simp [notableAll, notable]

@[simp]
theorem notableAll_append (es es' : List Expr) :
    notableAll (es ++ es') = notableAll es ++ notableAll es' := by
  simp [notableAll]

@[simp]
theorem notable_temp (index : Nat) : (.variable (.temp index) : Expr).notable = [.read (.temp index)] :=
  rfl

@[simp]
theorem notable_param (p : String) : (.variable (.param p) : Expr).notable = [.read (.param p)] := rfl

@[simp]
theorem notable_constant (text : String) : (constant text).notable = [] := rfl

@[simp]
theorem notable_string (value : String) : (string value).notable = [] := rfl

@[simp]
theorem notable_member (target : Expr) (name : String) :
    (member target name).notable = target.notable := rfl

@[simp]
theorem notable_paren (inner : Expr) : (paren inner).notable = inner.notable := rfl

@[simp]
theorem notable_signed (sign : Sign) (operand : Expr) :
    (signed sign operand).notable = operand.notable := rfl

@[simp]
theorem notable_await (promise : Expr) : (await promise).notable = promise.notable := rfl

@[simp]
theorem notable_index (target key : Expr) :
    (index target key).notable = target.notable ++ key.notable := by
  simp [notable]

@[simp]
theorem notable_call (callee : Expr) (args : List Expr) :
    (call callee args).notable = callee.notable ++ notableAll args := by
  simp [notable, notableAll]

@[simp]
theorem notable_create (constructor : Expr) (args : List Expr) :
    (create constructor args).notable = constructor.notable ++ notableAll args := by
  simp [notable, notableAll]

@[simp]
theorem notable_array (items : List Expr) : (array items).notable = notableAll items := rfl

@[simp]
theorem notable_sequence (items : List Expr) : (sequence items).notable = notableAll items := rfl

@[simp]
theorem notable_object_nil : (object []).notable = [] := rfl

@[simp]
theorem notable_object_cons (key value : Expr) (entries : List (Expr × Expr)) :
    (object ((key, value) :: entries)).notable =
      key.notable ++ (value.notable ++ (object entries).notable) := by
  simp [notable]

@[simp]
theorem notable_operation (op : Operator) (left right : Expr) :
    (operation op left right).notable = left.notable ++ right.notable := by
  simp [notable]

@[simp]
theorem notable_conditional (cond yes no : Expr) :
    (conditional cond yes no).notable = cond.notable ++ (yes.notable ++ no.notable) := by
  simp [notable]

@[simp]
theorem notable_function (isAsync : Bool) (params : List Variable) (body : List Stmt) :
    (function isAsync params body).notable = [.function params body] := rfl

@[simp]
theorem notable_ofNode_literal (pos : Position) (value : Literal) (code : Expr) :
    (ofNode (.literal pos value) code).notable = code.notable := rfl

@[simp]
theorem notable_ofNode_binary (pos : Position) (op : BinaryOp) (left right : Node) (code : Expr) :
    (ofNode (.binary pos op left right) code).notable = code.notable := rfl

/-- Only the code of a symbol is a use of its own. -/
@[simp]
theorem notable_ofNode_symbol (pos : Position) (name : String) (code : Expr) :
    (ofNode (.symbol pos name) code).notable = .symbol pos name code :: code.notable := rfl

/-- A common variable is nothing of note. -/
@[simp]
theorem notable_name {text : String} (h : text ∈ commonNames) : (name text).notable = [] := by
  simp [notable, name, Use.isNotable, Variable.isCommon, h]

@[simp]
theorem notable_assign {text : String} (value : Expr) (h : text ∈ commonNames) :
    (assign (.named text) value).notable = value.notable := by
  have hwrite : Use.isNotable (.write (.named text)) = false := by
    simp [Use.isNotable, Variable.isCommon, h]
  simp [notable, hwrite]

end Expr

end Script

end TemplateManifest
