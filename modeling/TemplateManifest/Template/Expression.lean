import TemplateManifest.Template.Node
import TemplateManifest.Template.Stream

/-!
The grammar of expressions. From the loosest binding to the tightest: inline `if`, `or`, `and`,
`not`, `in`, `is`, comparisons, `~`, `+` and `-`, `*` and `/` and `//` and `%`, `**`, signs,
filters, and the accessors of a primary expression.

Each level is a parser over the parser of the expressions nested inside brackets. Those are
read from a strictly shorter stream, so the nesting is never deeper than the stream is long.
-/

namespace TemplateManifest

namespace Expression

open TemplateManifest.Parser

/-- What is read inside brackets. -/
inductive Goal where
  | expression
  | primary
deriving DecidableEq, Repr

/-- The parsers of what is nested inside brackets. -/
abbrev Nested := Goal → Parser Node

/-- The arguments of a call: positional ones and, after them, named ones. -/
structure Arguments where
  positional : List Node := []
  keyword : List (String × Node) := []
deriving Repr, Inhabited

/-- There is no argument yet. -/
def Arguments.isEmpty (args : Arguments) : Bool :=
  args.positional.isEmpty && args.keyword.isEmpty

/-- Reads one more argument: `name = expression` or an expression. -/
def argument (nested : Nested) (args : Arguments) : Parser Arguments := do
  let token ← peek
  if token.kind = .symbol && (← peekSecond).isOperator "=" then
    let _ ← next
    let _ ← next
    let value ← nested .expression
    return { args with keyword := args.keyword ++ [(token.value, value)] }
  else
    unless args.keyword.isEmpty do fail .positionalAfterKeyword
    let value ← nested .expression
    return { args with positional := args.positional ++ [value] }

/-- Reads arguments in parentheses. -/
def callArguments (nested : Nested) : Parser Arguments := do
  let _ ← expect .leftParen "'('"
  commaSeparated .rightParen "',' between arguments" Arguments.isEmpty (argument nested) {}

/-- Reads arguments in parentheses, if there are any. -/
def optionalArguments (nested : Nested) : Parser Arguments := do
  if (← peek).kind = .leftParen then callArguments nested else return {}

/-- Reads the items of an array after those already read. -/
def arrayItems (nested : Nested) (close : TokenKind) (what : String)
    (isFirst : List Node → Bool) (items : List Node) : Parser (List Node) :=
  commaSeparated close what isFirst (fun items => return items ++ [← nested .expression]) items

/-- Reads what follows an opening parenthesis: a grouped expression, or an array when a comma or
    nothing stands inside. -/
def parenthesized (nested : Nested) (pos : Position) : Parser Node := do
  if ← skipKind .rightParen then return .array pos []
  let first ← nested .expression
  if ← skipKind .rightParen then return .group pos first
  return .array pos (← arrayItems nested .rightParen "',' or ')'" (fun _ => false) [first])

/-- A bare symbol as a key of a dictionary stands for the string that it spells. -/
def dictKey : Node → Node
  | .symbol pos name => .literal pos (.str name)
  | key => key

/-- Reads one more entry of a dictionary. -/
def dictEntry (nested : Nested) (entries : List (Node × Node)) : Parser (List (Node × Node)) := do
  let key ← nested .primary
  let _ ← expect .colon "':' after dict key"
  let value ← nested .expression
  return entries ++ [(dictKey key, value)]

/-- The integers of the language are those of sixty-four bits. -/
def integerInRange (n : Int) : Bool :=
  -0x8000000000000000 ≤ n && n < 0x8000000000000000

/-- The value that a symbol spells, or the symbol itself. -/
def symbolNode (pos : Position) (name : String) : Node :=
  if name ∈ ["true", "True"] then .literal pos (.bool true)
  else if name ∈ ["false", "False"] then .literal pos (.bool false)
  else if name ∈ ["none", "None", "null"] then .literal pos .none
  else .symbol pos name

/-- Reads an expression without accessors. -/
def atom (nested : Nested) : Parser Node := do
  let token ← next
  match token.kind with
  | .string => return .literal token.pos (.str token.value)
  | .int =>
    match readInteger? token.value.toList with
    | some n =>
      if integerInRange n then return .literal token.pos (.int n)
      else failAt (.integerOutOfRange token.value) token
    | none => failAt (.integerOutOfRange token.value) token
  | .float =>
    match Double.read? token.value.toList with
    | some x => return .literal token.pos (.float x)
    | none => failAt (.invalidFloat token.value) token
  | .symbol => return symbolNode token.pos token.value
  | .leftParen => parenthesized nested token.pos
  | .leftBracket =>
    return .array token.pos
      (← arrayItems nested .rightBracket "',' between array items" List.isEmpty [])
  | .leftCurly =>
    return .dict token.pos
      (← commaSeparated .rightCurly "',' between dict entries" List.isEmpty (dictEntry nested) [])
  | _ => failAt (.noExpression token) token

/-- Reads one accessor of a node, if there is one: a call, a key in brackets, or a name or
    number after a point. -/
def accessor (nested : Nested) (node : Node) : Parser (Step Node Node) := do
  let token ← peek
  if token.kind = .leftParen then
    let args ← callArguments nested
    return .more (.call node.pos node args.positional args.keyword)
  else if token.kind = .leftBracket then
    let _ ← next
    let key ← nested .expression
    let _ ← expect .rightBracket "']'"
    return .more (.lookup node.pos node key)
  else if token.isOperator "." then
    let _ ← next
    let key ← next
    unless key.kind = .symbol || key.kind = .int do
      failAt (.expected "name after '.'" key) key
    return .more (.lookup node.pos node (.literal key.pos (.str key.value)))
  else
    return .done node

/-- Reads a primary expression with its accessors. -/
def primaryOver (nested : Nested) : Parser Node := do
  let node ← atom nested
  iterate (accessor nested) node

/-- Reads the name of a filter, whose parts are joined by points. -/
def filterName : Parser String := do
  let first ← expectSymbol "filter name"
  iterate (fun name => do
    if ← skipOperator "." then return .more (name ++ "." ++ (← expectSymbol "filter name"))
    return .done name) first

/-- Reads the filters applied to a node. -/
def filters (nested : Nested) : Node → Parser Node :=
  iterate fun node => do
    unless ← skipKind .pipe do return .done node
    let token ← peek
    let name ← filterName
    let args ← optionalArguments nested
    return .more (.filter token.pos name node args.positional args.keyword)

/-- The operators of signs. -/
def signs : List (String × UnaryOp) := [("-", .neg), ("+", .pos)]

/-- Takes the current token if it is one of the operators, and gives what the operator means. -/
def skipOneOf {α : Type} (operators : List (String × α)) : Parser (Option α) := fun s =>
  match operators.find? fun entry => s.head.isOperator entry.1 with
  | some entry => .ok (some entry.2) s.tail
  | none => .ok none s

/-- Reads unary operators, the outermost first, by a parser of one of them. -/
def unaryOperators (one : Parser (Option UnaryOp)) : Parser (List (Position × UnaryOp)) :=
  iterate (fun ops => do
    let token ← peek
    match ← one with
    | some op => return .more (ops ++ [(token.pos, op)])
    | none => return .done ops) []

/-- Applies unary operators to a node, the outermost first. -/
def applyUnary (ops : List (Position × UnaryOp)) (node : Node) : Node :=
  ops.foldr (fun (pos, op) node => .unary pos op node) node

/-- Reads a primary expression with its signs and filters; filters bind tighter than signs. -/
def signed (nested : Nested) : Parser Node := do
  let ops ← unaryOperators (skipOneOf signs)
  let node ← primaryOver nested
  return applyUnary ops (← filters nested node)

/-- Reads a chain of operands between operators, grouped to the left. -/
def leftChain (operator : Parser (Option BinaryOp)) (operand : Parser Node) : Parser Node := do
  let first ← operand
  iterate (fun left => do
    match ← operator with
    | some op => return .more (.binary left.pos op left (← operand))
    | none => return .done left) first

/-- Reads powers. -/
def power (nested : Nested) : Parser Node :=
  leftChain (skipOneOf [("**", .pow)]) (signed nested)

/-- Reads products. -/
def product (nested : Nested) : Parser Node :=
  leftChain (skipOneOf [("*", .mul), ("//", .floorDiv), ("/", .div), ("%", .mod)]) (power nested)

/-- Reads sums. -/
def sum (nested : Nested) : Parser Node :=
  leftChain (skipOneOf [("+", .add), ("-", .sub)]) (product nested)

/-- Reads string concatenations. -/
def concatenation (nested : Nested) : Parser Node :=
  leftChain (skipOneOf [("~", .concat)]) (sum nested)

/-- Reads comparisons; a chain of them is one node. -/
def comparison (nested : Nested) : Parser Node := do
  let first ← concatenation nested
  let rest ← iterate (fun rest => do
    match ← skipOneOf CompareOp.spellings with
    | some op => return .more (rest ++ [(op, ← concatenation nested)])
    | none => return .done rest) []
  if rest.isEmpty then return first else return .compare first.pos first rest

/-- Reads a comparison and the test applied to it, if there is one. The test may have arguments;
    named ones have no effect. -/
def tested (nested : Nested) : Parser Node := do
  let node ← comparison nested
  unless ← skipSymbol "is" do return node
  let negated ← skipSymbol "not"
  let name ← expectSymbol "test name"
  let args ← optionalArguments nested
  return .test node.pos node name args.positional negated

/-- Takes `in` or `not in`. -/
def membershipOperator : Parser (Option BinaryOp) := do
  if (← peek).isSymbol "not" && (← peekSecond).isSymbol "in" then
    let _ ← next
    let _ ← next
    return some .notIn
  else if ← skipSymbol "in" then return some .in
  else return none

/-- Reads membership tests. -/
def membership (nested : Nested) : Parser Node :=
  leftChain membershipOperator (tested nested)

/-- Takes a word that is an operator. -/
def wordOperator {α : Type} (word : String) (op : α) : Parser (Option α) := do
  if ← skipSymbol word then return some op else return none

/-- Reads negations. -/
def negation (nested : Nested) : Parser Node := do
  let ops ← unaryOperators (wordOperator "not" .not)
  return applyUnary ops (← membership nested)

/-- Reads conjunctions. -/
def conjunction (nested : Nested) : Parser Node :=
  leftChain (wordOperator "and" .and) (negation nested)

/-- Reads disjunctions. -/
def disjunction (nested : Nested) : Parser Node :=
  leftChain (wordOperator "or" .or) (conjunction nested)

/-- Reads an expression: a disjunction, and the condition on it if there is one. -/
def expressionOver (nested : Nested) : Parser Node := do
  let body ← disjunction nested
  unless ← skipSymbol "if" do return body
  let cond ← disjunction nested
  if ← skipSymbol "else" then
    return .inlineIf body.pos cond body (some (← disjunction nested))
  else
    return .inlineIf body.pos cond body none

/-- The parsers of expressions nested at most so deep. -/
def nestedTo : Nat → Nested
  | 0 => fun _ => fail .tooDeep
  | depth + 1 => fun goal =>
    match goal with
    | .expression => expressionOver (nestedTo depth)
    | .primary => primaryOver (nestedTo depth)

/-- The parsers of expressions. -/
def nested : Nested := fun goal s =>
  nestedTo (s.pending.length + 1) goal s

end Expression

/-- Reads an expression. -/
def Parser.expression : Parser Node :=
  Expression.nested .expression

end TemplateManifest
