import TemplateManifest.Number.Decimal
import TemplateManifest.Text.Position

/-!
The syntax tree of a template. Statements and expressions are nodes of one type, because a
custom tag may put an expression where a statement stands.
-/

namespace TemplateManifest

/-- A literal value. -/
inductive Literal where
  | str (value : String)
  | int (value : Int)
  | float (value : Double)
  | bool (value : Bool)
  | none
deriving DecidableEq, Repr, Inhabited

/-- The text that a literal contributes when strings are joined. -/
def Literal.asText : Literal → String
  | .str value => value
  | .int value => integerText value
  | .float value => value.text
  | .bool value => if value then "true" else "false"
  | .none => ""

/-- The operators before one operand. -/
inductive UnaryOp where
  | not
  | neg
  | pos
deriving DecidableEq, Repr, Inhabited

/-- The operators between two operands, comparisons apart. -/
inductive BinaryOp where
  | add
  | sub
  | mul
  | div
  | floorDiv
  | mod
  | pow
  | concat
  | and
  | or
  | in
  | notIn
deriving DecidableEq, Repr, Inhabited

/-- The comparisons. -/
inductive CompareOp where
  | eq
  | strictEq
  | ne
  | strictNe
  | lt
  | gt
  | le
  | ge
deriving DecidableEq, Repr, Inhabited

/-- The comparisons with the operators that spell them. -/
def CompareOp.spellings : List (String × CompareOp) :=
  [("==", .eq), ("===", .strictEq), ("!=", .ne), ("!==", .strictNe), ("<", .lt), (">", .gt),
   ("<=", .le), (">=", .ge)]

/-- The identity of one loaded addon. -/
structure Handle where
  id : String
deriving DecidableEq, Repr, Inhabited

/-- How a custom tag names the extension that it calls. -/
inductive Site where
  | byName (name : String)
  | byHandle (handle : Handle)
deriving DecidableEq, Repr, Inhabited

/-- What an inclusion does with the template that it names. -/
inductive Inclusion where
  /-- The template extends the named one. -/
  | parent
  /-- The named template is rendered in place. -/
  | part (ignoreMissing : Bool)
  /-- The exports of the named template become one variable. -/
  | module (target : String) (withContext : Bool)
  /-- Some exports become variables, each under its own name or another one. -/
  | members (names : List (String × Option String)) (withContext : Bool)
deriving DecidableEq, Repr, Inhabited

/-- A node of the syntax tree, with the place where it starts. -/
inductive Node where
  | data (pos : Position) (text : String)
  | output (pos : Position) (values : List Node)
  | ifElse (pos : Position) (cond : Node) (body otherwise : List Node)
  | forEach (pos : Position) (targets : List String) (iterated : Node)
      (body otherwise : List Node)
  | assign (pos : Position) (targets : List String) (value : Node)
  | block (pos : Position) (name : String) (body : List Node)
  | macroDef (pos : Position) (name : String) (params : List (String × Option Node))
      (body : List Node)
  /-- The body that a call block passes to the macro that it calls. -/
  | callerBody (pos : Position) (params : List (String × Option Node)) (body : List Node)
  /-- The output of some nodes as a value. -/
  | capture (pos : Position) (body : List Node)
  | inclusion (pos : Position) (form : Inclusion) (template : Node)
  | extensionCall (pos : Position) (site : Site) (method : String) (args : List Node)
      (kwargs : List (String × Node)) (bodies : List (List Node)) (isAsync : Bool)
  | literal (pos : Position) (value : Literal)
  | symbol (pos : Position) (name : String)
  | group (pos : Position) (inner : Node)
  | array (pos : Position) (items : List Node)
  | dict (pos : Position) (entries : List (Node × Node))
  | lookup (pos : Position) (target key : Node)
  | call (pos : Position) (callee : Node) (args : List Node) (kwargs : List (String × Node))
  | filter (pos : Position) (name : String) (target : Node) (args : List Node)
      (kwargs : List (String × Node))
  | test (pos : Position) (target : Node) (name : String) (args : List Node) (negated : Bool)
  | unary (pos : Position) (op : UnaryOp) (operand : Node)
  | binary (pos : Position) (op : BinaryOp) (left right : Node)
  | compare (pos : Position) (first : Node) (rest : List (CompareOp × Node))
  | inlineIf (pos : Position) (cond body : Node) (otherwise : Option Node)
deriving Repr, Inhabited

/-- A parsed template: its name and its top-level nodes. -/
structure Template where
  name : String
  body : List Node
deriving Repr, Inhabited

/-- A coarse classification of nodes. -/
inductive Category where
  | inclusion
  | functionCall
  | filterCall
  | extensionCall
  | add
  | literal
  | symbol
  | other
deriving DecidableEq, Repr, Inhabited

namespace Node

/-- Where the node starts. -/
def pos : Node → Position
  | data pos _ | output pos _ | ifElse pos _ _ _ | forEach pos _ _ _ _ | assign pos _ _
  | block pos _ _ | macroDef pos _ _ _ | callerBody pos _ _ | capture pos _
  | inclusion pos _ _ | extensionCall pos _ _ _ _ _ _ | literal pos _ | symbol pos _
  | group pos _ | array pos _ | dict pos _ | lookup pos _ _ | call pos _ _ _
  | filter pos _ _ _ _ | test pos _ _ _ _ | unary pos _ _ | binary pos _ _ _
  | compare pos _ _ | inlineIf pos _ _ _ => pos

/-- The category of a node. -/
def category : Node → Category
  | inclusion _ _ _ => .inclusion
  | call _ _ _ _ => .functionCall
  | filter _ _ _ _ _ => .filterCall
  | extensionCall _ _ _ _ _ _ _ => .extensionCall
  | binary _ .add _ _ => .add
  | literal _ _ => .literal
  | symbol _ _ => .symbol
  | _ => .other

/-- The kind of the node as messages name it. -/
def describe : Node → String
  | data _ _ => "template data"
  | output _ _ => "output"
  | ifElse _ _ _ _ => "if statement"
  | forEach _ _ _ _ _ => "for loop"
  | assign _ _ _ => "set statement"
  | block _ _ _ => "block"
  | macroDef _ _ _ _ => "macro"
  | callerBody _ _ _ => "caller"
  | capture _ _ => "capture"
  | inclusion _ .parent _ => "extends"
  | inclusion _ (.part _) _ => "include"
  | inclusion _ (.module _ _) _ => "import"
  | inclusion _ (.members _ _) _ => "from-import"
  | extensionCall _ _ _ _ _ _ _ => "extension call"
  | literal _ _ => "literal"
  | symbol _ _ => "symbol"
  | group _ _ => "parenthesized expression"
  | array _ _ => "array"
  | dict _ _ => "dict"
  | lookup _ _ _ => "member lookup"
  | call _ _ _ _ => "function call"
  | filter _ _ _ _ _ => "filter"
  | test _ _ _ _ _ => "test"
  | unary _ _ _ => "unary operation"
  | binary _ _ _ _ => "binary operation"
  | compare _ _ _ => "comparison"
  | inlineIf _ _ _ _ => "inline if"

/-- The direct children of a node in source order. -/
def children : Node → List Node
  | data _ _ | literal _ _ | symbol _ _ => []
  | output _ nodes | capture _ nodes | array _ nodes | block _ _ nodes => nodes
  | ifElse _ cond body otherwise => cond :: (body ++ otherwise)
  | forEach _ _ iterated body otherwise => iterated :: (body ++ otherwise)
  | macroDef _ _ params body | callerBody _ params body => params.filterMap (·.2) ++ body
  | extensionCall _ _ _ args kwargs bodies _ => args ++ kwargs.map (·.2) ++ bodies.flatten
  | assign _ _ node | inclusion _ _ node | group _ node | unary _ _ node => [node]
  | dict _ entries => entries.flatMap fun entry => [entry.1, entry.2]
  | lookup _ target key => [target, key]
  | call _ target args kwargs | filter _ _ target args kwargs =>
    target :: (args ++ kwargs.map (·.2))
  | test _ target _ args _ => target :: args
  | binary _ _ left right => [left, right]
  | compare _ first rest => first :: rest.map (·.2)
  | inlineIf _ cond body otherwise => cond :: body :: otherwise.toList

/-- The name that a call spells out as its callee. -/
def calleeName? : Node → Option String
  | call _ (symbol _ name) _ _ => some name
  | _ => none

end Node

end TemplateManifest
