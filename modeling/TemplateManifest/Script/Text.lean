import TemplateManifest.Script.Basic
import TemplateManifest.Text.Quoted

/-!
The text of the emitted script. Every statement of a function body stands on a line of its own.
-/

namespace TemplateManifest

open Text

namespace Script

/-- The name of a variable. -/
def Variable.text : Variable → String
  | .named name => name
  | .temp index => "t_" ++ String.ofList (Nat.toDigits 10 index)
  | .param name => "l_" ++ name

/-- The spelling of an operator. -/
def Operator.text : Operator → String
  | .add => "+"
  | .sub => "-"
  | .mul => "*"
  | .div => "/"
  | .mod => "%"
  | .and => "&&"
  | .or => "||"
  | .eq => "=="
  | .strictEq => "==="
  | .ne => "!="
  | .strictNe => "!=="
  | .lt => "<"
  | .gt => ">"
  | .le => "<="
  | .ge => ">="

/-- The spelling of a sign. -/
def Sign.text : Sign → String
  | .not => "!"
  | .neg => "-"
  | .pos => "+"

/-- The words that start a function. -/
def functionWords (isAsync : Bool) : String :=
  if isAsync then "async function" else "function"

/-- The head of a loop in which a variable counts from zero up to a limit. -/
def countHead (counter limit : Variable) : String :=
  "for (var " ++ counter.text ++ " = 0; " ++ counter.text ++ " < " ++ limit.text ++ "; " ++
    counter.text ++ "++) \x7b\n"

/-- Texts with commas between them. -/
def commaJoin (texts : List String) : String :=
  String.intercalate ", " texts

mutual

/-- The text of an expression. -/
def Expr.text : Expr → String
  | .variable v => v.text
  | .constant text => text
  | .string value => quote value
  | .member target name => target.text ++ "." ++ name
  | .index target key => target.text ++ "[" ++ key.text ++ "]"
  | .call callee args => callee.text ++ "(" ++ commaJoin (Expr.texts args) ++ ")"
  | .create constructor args =>
    "new " ++ constructor.text ++ "(" ++ commaJoin (Expr.texts args) ++ ")"
  | .paren inner => "(" ++ inner.text ++ ")"
  | .array items => "[" ++ commaJoin (Expr.texts items) ++ "]"
  | .object entries => "\x7b" ++ commaJoin (Expr.entryTexts entries) ++ "\x7d"
  | .operation op left right => left.text ++ " " ++ op.text ++ " " ++ right.text
  | .signed sign operand => sign.text ++ operand.text
  | .conditional cond yes no => cond.text ++ " ? " ++ yes.text ++ " : " ++ no.text
  | .await promise => "await " ++ promise.text
  | .assign v value => v.text ++ " = " ++ value.text
  | .sequence items => commaJoin (Expr.texts items)
  | .function isAsync params body =>
    functionWords isAsync ++ " (" ++ commaJoin (params.map Variable.text) ++ ") \x7b\n" ++
      Stmt.lines body ++ "\x7d"
  | .ofNode _ code => code.text

/-- The texts of some expressions. -/
def Expr.texts : List Expr → List String
  | [] => []
  | e :: es => e.text :: Expr.texts es

/-- The texts of the entries of an object. -/
def Expr.entryTexts : List (Expr × Expr) → List String
  | [] => []
  | (key, value) :: entries => (key.text ++ ": " ++ value.text) :: Expr.entryTexts entries

/-- The text of a statement. -/
def Stmt.text : Stmt → String
  | .declare v none => "var " ++ v.text ++ ";"
  | .declare v (some value) => "var " ++ v.text ++ " = " ++ value.text ++ ";"
  | .assignAll targets value =>
    String.intercalate " = " (targets.map Variable.text) ++ " = " ++ value.text ++ ";"
  | .append v value => v.text ++ " += " ++ value.text ++ ";"
  | .run value => value.text ++ ";"
  | .branch cond body => "if (" ++ cond.text ++ ") \x7b\n" ++ Stmt.lines body ++ "\x7d"
  | .branchElse cond body otherwise =>
    "if (" ++ cond.text ++ ") \x7b\n" ++ Stmt.lines body ++ "\x7d else \x7b\n" ++
      Stmt.lines otherwise ++ "\x7d"
  | .guard cond body => "if (" ++ cond.text ++ ") \x7b " ++ Stmt.spaced body ++ "\x7d"
  | .guardElse cond body otherwise =>
    "if (" ++ cond.text ++ ") \x7b " ++ Stmt.spaced body ++ "\x7d else \x7b " ++
      Stmt.spaced otherwise ++ "\x7d"
  | .countTo counter limit body => countHead counter limit ++ Stmt.lines body ++ "\x7d"
  | .forKeys key object body =>
    "for (var " ++ key.text ++ " in " ++ object.text ++ ") \x7b " ++ Stmt.spaced body ++ "\x7d"
  | .throw value => "throw " ++ value.text ++ ";"
  | .return value => "return " ++ value.text ++ ";"

/-- Statements on lines of their own. -/
def Stmt.lines : List Stmt → String
  | [] => ""
  | s :: body => s.text ++ "\n" ++ Stmt.lines body

/-- Statements on one line, each with a blank after it. -/
def Stmt.spaced : List Stmt → String
  | [] => ""
  | s :: body => s.text ++ " " ++ Stmt.spaced body

end

/-- The text of a render function. -/
def functionText (isAsync : Bool) (name : String) (body : List Stmt) : String :=
  functionWords isAsync ++ " " ++ name ++ "(env, context, frame, runtime) \x7b\n" ++
    Stmt.lines body ++ "\x7d\n"

/-- The name of the function of a block. -/
def BlockFunction.functionName (b : BlockFunction) : String :=
  "b_" ++ b.name

namespace Module

/-- The line that exports the function of a block. -/
def exportLine (b : BlockFunction) : String :=
  b.functionName ++ ": " ++ b.functionName ++ ",\n"

/-- The text of a module: the root function, the functions of the blocks, and the object that
    holds them. -/
def text (m : Module) : String :=
  "var " ++ m.name ++ " = (function() \x7b\n" ++
    functionText m.isAsync "root" m.root ++
    String.join (m.blocks.map fun b => functionText m.isAsync b.functionName b.body) ++
    "return \x7b\n" ++
    String.join (m.blocks.map exportLine) ++
    "root: root\n\x7d;\n\x7d)();\n"

end Module

end Script

end TemplateManifest
