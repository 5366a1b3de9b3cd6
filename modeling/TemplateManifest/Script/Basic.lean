import TemplateManifest.Template.Node

/-!
The emitted script: its expressions and statements, as far as compiled templates need them.

Parentheses are part of the tree and are written exactly where they stand in it.
-/

namespace TemplateManifest

namespace Script

/-- A variable of the emitted code. -/
inductive Variable where
  /-- A variable with a fixed name. -/
  | named (name : String)
  /-- A numbered temporary. -/
  | temp (index : Nat)
  /-- The variable of a macro parameter. -/
  | param (name : String)
deriving DecidableEq, Repr, Inhabited

/-- The operators between two operands. -/
inductive Operator where
  | add
  | sub
  | mul
  | div
  | mod
  | and
  | or
  | eq
  | strictEq
  | ne
  | strictNe
  | lt
  | gt
  | le
  | ge
deriving DecidableEq, Repr, Inhabited

/-- The operators before one operand. -/
inductive Sign where
  | not
  | neg
  | pos
deriving DecidableEq, Repr, Inhabited

mutual

/-- An expression of the emitted code. -/
inductive Expr where
  | variable (v : Variable)
  /-- A constant that is a word or a number. -/
  | constant (text : String)
  | string (value : String)
  | member (target : Expr) (name : String)
  | index (target key : Expr)
  | call (callee : Expr) (args : List Expr)
  | create (constructor : Expr) (args : List Expr)
  | paren (inner : Expr)
  | array (items : List Expr)
  /-- The keys of an object are strings, constants, or computed keys, written as an array of one
      item. -/
  | object (entries : List (Expr × Expr))
  | operation (op : Operator) (left right : Expr)
  | signed (sign : Sign) (operand : Expr)
  | conditional (cond yes no : Expr)
  | await (promise : Expr)
  | assign (v : Variable) (value : Expr)
  | sequence (items : List Expr)
  | function (isAsync : Bool) (params : List Variable) (body : List Stmt)
  /-- The code of a node of a template, which is written as it is. -/
  | ofNode (node : Node) (code : Expr)

/-- A statement of the emitted code. -/
inductive Stmt where
  /-- A declaration, with or without a value. -/
  | declare (v : Variable) (value : Option Expr)
  /-- One value assigned to several variables. -/
  | assignAll (targets : List Variable) (value : Expr)
  | append (v : Variable) (value : Expr)
  | run (value : Expr)
  | branch (cond : Expr) (body : List Stmt)
  | branchElse (cond : Expr) (body otherwise : List Stmt)
  /-- A branch on one line. -/
  | guard (cond : Expr) (body : List Stmt)
  /-- A branch with an alternative on one line. -/
  | guardElse (cond : Expr) (body otherwise : List Stmt)
  /-- A loop in which `counter` counts from zero up to `limit`. -/
  | countTo (counter limit : Variable) (body : List Stmt)
  /-- A loop over the keys of an object, on one line. -/
  | forKeys (key : Variable) (object : Expr) (body : List Stmt)
  | throw (value : Expr)
  | return (value : Expr)

end

/-- The function of a named block. -/
structure BlockFunction where
  name : String
  body : List Stmt

/-- An emitted module: a variable bound to an object that holds the function of each block and
    the root function. -/
structure Module where
  name : String
  isAsync : Bool
  root : List Stmt
  blocks : List BlockFunction

end Script

end TemplateManifest
