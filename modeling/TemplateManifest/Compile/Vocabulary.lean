import TemplateManifest.Script.Basic
import TemplateManifest.Template.Node

/-!
The words in which compiled templates are written: the variables of every render function, and
the calls of the target runtime.
-/

namespace TemplateManifest

namespace Vocabulary

open Script

/-- The value of a variable with a fixed name. -/
def name (text : String) : Expr := .variable (.named text)

/-- The constant of a truth value. -/
def truth (value : Bool) : Expr := .constant (if value then "true" else "false")

/-- The constant of a number. -/
def number (value : Nat) : Expr := .constant (String.ofList (Nat.toDigits 10 value))

/-- A call of a method. -/
def method (target : Expr) (name : String) (args : List Expr) : Expr :=
  .call (.member target name) args

/-- A call of a function of the runtime. -/
def runtime (function : String) (args : List Expr) : Expr :=
  method (name "runtime") function args

/-- The code of a literal. -/
def literal : Literal → Expr
  | .str value => .string value
  | .int value => .constant (integerText value)
  | .float value => .constant value.text
  | .bool value => truth value
  | .none => .constant "null"

/-- The value of a symbol that no local variable holds. -/
def contextLookup (symbol : String) : Expr :=
  runtime "contextOrFrameLookup" [name "context", name "frame", .string symbol]

/-- The variables of every render function. -/
def renderArguments : List Expr :=
  [name "env", name "context", name "frame", name "runtime"]

/-- The declarations that start every render function. -/
def prologue : List Stmt :=
  [.declare (.named "lineno") (some (number 0)), .declare (.named "colno") (some (number 0)),
   .declare (.named "output") (some (.string ""))]

/-- The output of a value, escaped if so chosen. -/
def outputValue (value : Expr) (autoescape : Bool) : Stmt :=
  .append (.named "output") (runtime "suppressValue" [value, truth autoescape])

/-- An object has a property of its own. -/
def hasOwn (object key : Expr) : Expr :=
  method (.member (.member (name "Object") "prototype") "hasOwnProperty") "call" [object, key]

/-- Publishes a variable under a name: in the frame and, at the top level, in the context and,
    unless the name starts with an underscore, among the exports. -/
def publish (symbol : String) (v : Variable) : List Stmt :=
  let entry : List Expr := [.string symbol, .variable v]
  let atTop (function : String) : Stmt :=
    .guard (.member (name "frame") "topLevel") [.run (method (name "context") function entry)]
  .run (method (name "frame") "set" (entry ++ [truth true])) :: atTop "setVariable" ::
    (if symbol.toList.head? = some '_' then [] else [atTop "addExport"])

/-- Sets a variable of the frame. -/
def setFrame (symbol : String) (value : Expr) : Stmt :=
  .run (method (name "frame") "set" [.string symbol, value])

/-- Opens a frame inside the current one. -/
def pushFrame (args : List Expr) : Stmt :=
  .assignAll [.named "frame"] (method (name "frame") "push" args)

/-- Goes back to the frame outside the current one. -/
def popFrame : Stmt :=
  .assignAll [.named "frame"] (method (name "frame") "pop" [])

end Vocabulary

end TemplateManifest
