import TemplateManifest.Template.Statement

/-!
The parser over a list of tokens and the index of the current one. Nothing but its own checks keeps it from
leaving the list or from going round for ever: it halts at once where it looks for a token outside the list
or moves past the last one, where a loop goes round again and no token has been taken, and where a rule is
entered again inside itself and no token has been taken.
-/

namespace TemplateManifest

namespace IndexParser

open TemplateManifest.Parser (Step)

/-- Why a reading ends without a result. -/
inductive Halt where
  /-- The tokens do not fit the grammar. -/
  | refused (e : SyntaxError)
  /-- There is no token at this index. -/
  | noToken (index : Nat)
  /-- The token at this index is taken, and there is none after it. -/
  | passedEnd (index : Nat)
  /-- A round of a loop that began at this index has taken no token, and another one is to follow. -/
  | stalled (index : Nat)
  /-- The rule that is being read from this index on is entered again there. -/
  | repeated (index : Nat)
deriving DecidableEq, Repr

/-- The state of a reading. -/
structure State where
  tokens : List Token
  /-- The index of the current token. -/
  pos : Nat := 0
  /-- The names of the tags that close the body that is being read. -/
  awaited : List String := []

/-- The number of tokens from the current one on. -/
def State.left (s : State) : Nat :=
  s.tokens.length - s.pos

/-- A step of a reading. -/
abbrev Reader := EStateM Halt State

/-- The tokens with one for the end of the source, which is put after them if they do not have it. -/
def complete (tokens : List Token) : List Token :=
  match tokens.getLast? with
  | none => [Token.eofAt Position.first]
  | some last => if last.kind = .eof then tokens else tokens ++ [Token.eofAt last.pos]

section Tokens

/-- The token at some distance from the current one. Beyond the last token it is the last one. -/
def peekAt (offset : Nat) : Reader Token := fun s =>
  let index := min (s.pos + offset) (s.tokens.length - 1)
  match s.tokens[index]? with
  | some token => .ok token s
  | none => .error (.noToken index) s

/-- The current token. -/
def peek : Reader Token := peekAt 0

/-- Of the current token and the one after it some conditions hold. The second token is looked at only if
    the first condition holds. -/
def startsPair (first second : Token → Bool) : Reader Bool := do
  if first (← peek) then return second (← peekAt 1) else return false

/-- Takes the current token, whatever it is. -/
def take : Reader Token := do
  let token ← peek
  let s ← get
  if s.pos + 1 < s.tokens.length then
    set { s with pos := s.pos + 1 }
    return token
  else throw (.passedEnd s.pos)

/-- Takes the current token, but stays on the end of the source. -/
def next : Reader Token := do
  let token ← peek
  if token.kind = .eof then return token else take

/-- Fails at a token. -/
def failAt {α : Type} (fault : SyntaxFault) (token : Token) : Reader α :=
  throw (.refused ⟨fault, token.pos⟩)

/-- Fails at the current token. -/
def fail {α : Type} (fault : SyntaxFault) : Reader α := do
  failAt fault (← peek)

/-- Takes the current token if the condition holds of it, and tells whether it did. -/
def skipIf (condition : Token → Bool) : Reader Bool := do
  if condition (← peek) then
    let _ ← take
    return true
  else return false

/-- Takes the current token if it is of a kind. -/
def skipKind (kind : TokenKind) : Reader Bool :=
  skipIf fun token => token.kind = kind

/-- Takes the current token if it is the symbol `name`. -/
def skipSymbol (name : String) : Reader Bool :=
  skipIf fun token => token.isSymbol name

/-- Takes the current token if it is the operator `op`. -/
def skipOperator (op : String) : Reader Bool :=
  skipIf fun token => token.isOperator op

/-- Takes a token of a kind, which error messages call `what`. -/
def expect (kind : TokenKind) (what : String) : Reader Token := do
  let token ← peek
  if token.kind = kind then next else failAt (.expected what token) token

/-- Takes a symbol, which error messages call `what`. -/
def expectSymbol (what : String) : Reader String := do
  let token ← expect .symbol what
  return token.value

/-- Takes the symbol `keyword`. -/
def expectKeyword (keyword : String) : Reader Unit := do
  unless ← skipSymbol keyword do
    fail (.expected ("'" ++ keyword ++ "'") (← peek))

/-- Takes the end of a tag, before which the tag's name may be repeated. -/
def closeTag (name : String) : Reader Unit := do
  let _ ← skipSymbol name
  let _ ← expect .blockEnd ("end of block in '" ++ name ++ "' tag")

end Tokens

section Loops

/-- Repeats a step until it stops. A step after which another one follows has to take a token. -/
def loop {σ α : Type} (step : σ → Reader (Step σ α)) (state : σ) (s : State) :
    EStateM.Result Halt State α :=
  match step state s with
  | .error halt t => .error halt t
  | .ok (.done result) t => .ok result t
  | .ok (.more state) t =>
    if _h : t.left < s.left then loop step state t else .error (.stalled s.pos) t
termination_by s.left

/-- Reads items between commas up to a closing mark, before which one more comma may stand. -/
def commaSeparated {σ : Type} (close : TokenKind) (what : String) (isFirst : σ → Bool)
    (item : σ → Reader σ) : σ → Reader σ :=
  loop fun items => do
    if ← skipKind close then return .done items
    unless isFirst items do
      let _ ← expect .comma what
      if ← skipKind close then return .done items
    return .more (← item items)

/-- Reads the names of a list: one, and one more after each comma. -/
def names (what : String) : Reader (List String) := do
  let first ← expectSymbol what
  loop (fun names => do
    if ← skipKind .comma then return .more (names ++ [← expectSymbol what])
    return .done names) [first]

end Loops

section Expressions

open Expression (Goal Arguments symbolNode integerInRange dictKey applyUnary signs)

/-- The readers of what is nested inside brackets. -/
abbrev Nested := Goal → Reader Node

/-- Reads one more argument: `name = expression` or an expression. -/
def argument (nested : Nested) (args : Arguments) : Reader Arguments := do
  let token ← peek
  if ← startsPair (fun token => token.kind = .symbol) (fun token => token.isOperator "=") then
    let _ ← next
    let _ ← take
    let value ← nested .expression
    return { args with keyword := args.keyword ++ [(token.value, value)] }
  else
    unless args.keyword.isEmpty do fail .positionalAfterKeyword
    let value ← nested .expression
    return { args with positional := args.positional ++ [value] }

/-- Reads arguments in parentheses. -/
def callArguments (nested : Nested) : Reader Arguments := do
  let _ ← expect .leftParen "'('"
  commaSeparated .rightParen "',' between arguments" Arguments.isEmpty (argument nested) {}

/-- Reads arguments in parentheses, if there are any. -/
def optionalArguments (nested : Nested) : Reader Arguments := do
  if (← peek).kind = .leftParen then callArguments nested else return {}

/-- Reads the items of an array after those already read. -/
def arrayItems (nested : Nested) (close : TokenKind) (what : String)
    (isFirst : List Node → Bool) (items : List Node) : Reader (List Node) :=
  commaSeparated close what isFirst (fun items => return items ++ [← nested .expression]) items

/-- Reads what follows an opening parenthesis. -/
def parenthesized (nested : Nested) (pos : Position) : Reader Node := do
  if ← skipKind .rightParen then return .array pos []
  let first ← nested .expression
  if ← skipKind .rightParen then return .group pos first
  return .array pos (← arrayItems nested .rightParen "',' or ')'" (fun _ => false) [first])

/-- Reads one more entry of a dictionary. -/
def dictEntry (nested : Nested) (entries : List (Node × Node)) : Reader (List (Node × Node)) := do
  let key ← nested .primary
  let _ ← expect .colon "':' after dict key"
  let value ← nested .expression
  return entries ++ [(dictKey key, value)]

/-- Reads an expression without accessors. -/
def atom (nested : Nested) : Reader Node := do
  let token ← next
  match token.kind with
  | .string => return .literal token.pos (.str token.value)
  | .int =>
    match readInteger? token.value.toList with
    | some n =>
      if integerInRange n then return .literal token.pos (.int n)
      else failAt (.integerOutOfRange token.value) token
    | none => failAt (.integerOutOfRange token.value) token
  | .float =>
    match Double.read? token.value.toList with
    | some x => return .literal token.pos (.float x)
    | none => failAt (.invalidFloat token.value) token
  | .symbol => return symbolNode token.pos token.value
  | .leftParen => parenthesized nested token.pos
  | .leftBracket =>
    return .array token.pos
      (← arrayItems nested .rightBracket "',' between array items" List.isEmpty [])
  | .leftCurly =>
    return .dict token.pos
      (← commaSeparated .rightCurly "',' between dict entries" List.isEmpty (dictEntry nested) [])
  | _ => failAt (.noExpression token) token

/-- Reads one accessor of a node, if there is one. -/
def accessor (nested : Nested) (node : Node) : Reader (Step Node Node) := do
  let token ← peek
  if token.kind = .leftParen then
    let args ← callArguments nested
    return .more (.call node.pos node args.positional args.keyword)
  else if token.kind = .leftBracket then
    let _ ← take
    let key ← nested .expression
    let _ ← expect .rightBracket "']'"
    return .more (.lookup node.pos node key)
  else if token.isOperator "." then
    let _ ← take
    let key ← next
    unless key.kind = .symbol || key.kind = .int do
      failAt (.expected "name after '.'" key) key
    return .more (.lookup node.pos node (.literal key.pos (.str key.value)))
  else
    return .done node

/-- Reads a primary expression with its accessors. -/
def primaryOver (nested : Nested) : Reader Node := do
  let node ← atom nested
  loop (accessor nested) node

/-- Reads the name of a filter, whose parts are joined by points. -/
def filterName : Reader String := do
  let first ← expectSymbol "filter name"
  loop (fun name => do
    if ← skipOperator "." then return .more (name ++ "." ++ (← expectSymbol "filter name"))
    return .done name) first

/-- Reads the filters applied to a node. -/
def filters (nested : Nested) : Node → Reader Node :=
  loop fun node => do
    unless ← skipKind .pipe do return .done node
    let token ← peek
    let name ← filterName
    let args ← optionalArguments nested
    return .more (.filter token.pos name node args.positional args.keyword)

/-- Takes the current token if it is one of the operators, and gives what the operator means. -/
def skipOneOf {α : Type} (operators : List (String × α)) : Reader (Option α) := do
  let token ← peek
  match operators.find? fun entry => token.isOperator entry.1 with
  | some entry =>
    let _ ← take
    return some entry.2
  | none => return none

/-- Reads unary operators, the outermost first, by a reader of one of them. -/
def unaryOperators (one : Reader (Option UnaryOp)) : Reader (List (Position × UnaryOp)) :=
  loop (fun ops => do
    let token ← peek
    match ← one with
    | some op => return .more (ops ++ [(token.pos, op)])
    | none => return .done ops) []

/-- Reads a primary expression with its signs and filters. -/
def signed (nested : Nested) : Reader Node := do
  let ops ← unaryOperators (skipOneOf signs)
  let node ← primaryOver nested
  return applyUnary ops (← filters nested node)

/-- Reads a chain of operands between operators, grouped to the left. -/
def leftChain (operator : Reader (Option BinaryOp)) (operand : Reader Node) : Reader Node := do
  let first ← operand
  loop (fun left => do
    match ← operator with
    | some op => return .more (.binary left.pos op left (← operand))
    | none => return .done left) first

/-- Reads powers. -/
def power (nested : Nested) : Reader Node :=
  leftChain (skipOneOf [("**", .pow)]) (signed nested)

/-- Reads products. -/
def product (nested : Nested) : Reader Node :=
  leftChain (skipOneOf [("*", .mul), ("//", .floorDiv), ("/", .div), ("%", .mod)]) (power nested)

/-- Reads sums. -/
def sum (nested : Nested) : Reader Node :=
  leftChain (skipOneOf [("+", .add), ("-", .sub)]) (product nested)

/-- Reads string concatenations. -/
def concatenation (nested : Nested) : Reader Node :=
  leftChain (skipOneOf [("~", .concat)]) (sum nested)

/-- Reads comparisons; a chain of them is one node. -/
def comparison (nested : Nested) : Reader Node := do
  let first ← concatenation nested
  let rest ← loop (fun rest => do
    match ← skipOneOf CompareOp.spellings with
    | some op => return .more (rest ++ [(op, ← concatenation nested)])
    | none => return .done rest) []
  if rest.isEmpty then return first else return .compare first.pos first rest

/-- Reads a comparison and the test applied to it, if there is one. -/
def tested (nested : Nested) : Reader Node := do
  let node ← comparison nested
  unless ← skipSymbol "is" do return node
  let negated ← skipSymbol "not"
  let name ← expectSymbol "test name"
  let args ← optionalArguments nested
  return .test node.pos node name args.positional negated

/-- Takes `in` or `not in`. -/
def membershipOperator : Reader (Option BinaryOp) := do
  if ← startsPair (fun token => token.isSymbol "not") (fun token => token.isSymbol "in") then
    let _ ← take
    let _ ← take
    return some .notIn
  else if ← skipSymbol "in" then return some .in
  else return none

/-- Reads membership tests. -/
def membership (nested : Nested) : Reader Node :=
  leftChain membershipOperator (tested nested)

/-- Takes a word that is an operator. -/
def wordOperator {α : Type} (word : String) (op : α) : Reader (Option α) := do
  if ← skipSymbol word then return some op else return none

/-- Reads negations. -/
def negation (nested : Nested) : Reader Node := do
  let ops ← unaryOperators (wordOperator "not" .not)
  return applyUnary ops (← membership nested)

/-- Reads conjunctions. -/
def conjunction (nested : Nested) : Reader Node :=
  leftChain (wordOperator "and" .and) (negation nested)

/-- Reads disjunctions. -/
def disjunction (nested : Nested) : Reader Node :=
  leftChain (wordOperator "or" .or) (conjunction nested)

/-- Reads an expression: a disjunction, and the condition on it if there is one. -/
def expressionOver (nested : Nested) : Reader Node := do
  let body ← disjunction nested
  unless ← skipSymbol "if" do return body
  let cond ← disjunction nested
  if ← skipSymbol "else" then
    return .inlineIf body.pos cond body (some (← disjunction nested))
  else
    return .inlineIf body.pos cond body none

/-- Reads what is nested inside brackets, with what is nested inside it in turn. -/
def nestedOver (nested : Nested) : Nested
  | .expression => expressionOver nested
  | .primary => primaryOver nested

/-- The readers of expressions. Inside an expression another one may only be entered after a token has
    been taken. -/
def nested (goal : Goal) (s : State) : EStateM.Result Halt State Node :=
  nestedOver (fun goal t =>
    if _h : t.left < s.left then nested goal t else .error (.repeated t.pos) t) goal s
termination_by s.left

/-- Reads an expression. -/
def expression : Reader Node := nested .expression

end Expressions

section Statements

open Expression (Arguments)
open Statement (Branch conditionalNode loopEnd ownSite scriptedNode)

/-- Reads a body up to one of the tags that close it. What was awaited before is awaited again afterwards,
    also after a failure. -/
def untilBlocks (nodes : Reader (List Node)) (stop : List String) : Reader (List Node) := fun s =>
  match nodes { s with awaited := stop } with
  | .ok body t => .ok body { t with awaited := s.awaited }
  | .error halt t => .error halt { t with awaited := s.awaited }

variable (nodes : Reader (List Node))

/-- Reads a conditional statement. -/
def conditional : Reader Node := do
  let first ← take
  loop (fun (branches, keyword) => do
    let cond ← expression
    closeTag keyword.value
    let body ← untilBlocks nodes ["elif", "elseif", "else", "endif"]
    let branches := branches ++ [⟨keyword.pos, cond, body⟩]
    let closing ← next
    if closing.value ∈ ["elif", "elseif"] then
      return .more (branches, closing)
    else if closing.value = "else" then
      closeTag "else"
      let otherwise ← untilBlocks nodes ["endif"]
      closeTag "endif"
      return .done (conditionalNode branches otherwise)
    else
      closeTag "endif"
      return .done (conditionalNode branches [])) (([] : List Branch), first)

/-- Reads a loop. -/
def forEach : Reader Node := do
  let token ← next
  let endTag := loopEnd token.value
  let targets ← names "loop variable"
  expectKeyword "in"
  let iterated ← expression
  closeTag token.value
  let body ← untilBlocks nodes [endTag, "else"]
  if ← skipSymbol "else" then
    closeTag "else"
    let otherwise ← untilBlocks nodes [endTag]
    closeTag endTag
    return .forEach token.pos targets iterated body otherwise
  else
    closeTag endTag
    return .forEach token.pos targets iterated body []

/-- Reads an assignment of a value, or of the output of a body. -/
def assignment : Reader Node := do
  let token ← next
  let targets ← names "variable name"
  if ← skipOperator "=" then
    let value ← expression
    closeTag "set"
    return .assign token.pos targets value
  else
    closeTag "set"
    let body ← untilBlocks nodes ["endset"]
    closeTag "endset"
    return .assign token.pos targets (.capture token.pos body)

/-- Reads a named block. -/
def block : Reader Node := do
  let token ← next
  let name ← expectSymbol "block name"
  closeTag "block"
  let body ← untilBlocks nodes ["endblock"]
  expectKeyword "endblock"
  let _ ← skipSymbol name
  let _ ← expect .blockEnd "end of block in 'endblock' tag"
  return .block token.pos name body

/-- Reads one more parameter, with or without a default. -/
def parameter (params : List (String × Option Node)) : Reader (List (String × Option Node)) := do
  let name ← expectSymbol "parameter name"
  if ← skipOperator "=" then return params ++ [(name, some (← expression))]
  else return params ++ [(name, none)]

/-- Reads parameters in parentheses. -/
def parameters : Reader (List (String × Option Node)) := do
  let _ ← expect .leftParen "'(' to open parameter list"
  commaSeparated .rightParen "',' between parameters" List.isEmpty parameter []

/-- Reads the definition of a macro. -/
def macroDefinition : Reader Node := do
  let token ← next
  let name ← expectSymbol "macro name"
  let params ← parameters
  closeTag "macro"
  let body ← untilBlocks nodes ["endmacro"]
  closeTag "endmacro"
  return .macroDef token.pos name params body

/-- Reads a call block. -/
def callBlock : Reader Node := do
  let token ← next
  let params ← if (← peek).kind = .leftParen then parameters else pure []
  let called ← expression
  closeTag "call"
  let body ← untilBlocks nodes ["endcall"]
  closeTag "endcall"
  match called with
  | .call pos callee args kwargs =>
    let caller := ("caller", .callerBody token.pos params body)
    return .output token.pos [.call pos callee args (kwargs ++ [caller])]
  | _ => failAt .noMacroCall token

/-- Reads a filter block. -/
def filterBlock : Reader Node := do
  let token ← next
  let nameToken ← peek
  let name ← filterName
  let args ← optionalArguments nested
  closeTag "filter"
  let body ← untilBlocks nodes ["endfilter"]
  closeTag "endfilter"
  return .output token.pos
    [.filter nameToken.pos name (.capture token.pos body) args.positional args.keyword]

/-- Reads the tag of a parent template. -/
def parentTemplate : Reader Node := do
  let token ← next
  let template ← expression
  closeTag "extends"
  return .inclusion token.pos .parent template

/-- Reads the tag of an included template. -/
def includedTemplate : Reader Node := do
  let token ← next
  let template ← expression
  let ignoreMissing ← skipSymbol "ignore"
  if ignoreMissing then expectKeyword "missing"
  closeTag "include"
  return .inclusion token.pos (.part ignoreMissing) template

/-- Reads `with context` or `without context`, if it is there. -/
def withContext : Reader (Option Bool) := do
  if ← skipSymbol "with" then
    expectKeyword "context"
    return some true
  else if ← skipSymbol "without" then
    expectKeyword "context"
    return some false
  else
    return none

/-- Reads the tag of an imported template. -/
def importedTemplate : Reader Node := do
  let token ← next
  let template ← expression
  expectKeyword "as"
  let target ← expectSymbol "import target"
  let context ← withContext
  closeTag "import"
  return .inclusion token.pos (.module target (context.getD false)) template

/-- Reads the tag that imports some names of a template. -/
def importedNames : Reader Node := do
  let token ← next
  let template ← expression
  expectKeyword "import"
  let form ← loop (fun names => do
    if let some context ← withContext then
      return .done (.members names context)
    if (← peek).kind = .blockEnd then
      if names.isEmpty then fail .noImportName
      return .done (.members names false)
    unless names.isEmpty do
      let _ ← expect .comma "',' between import names"
    let name ← expectSymbol "import name"
    if ← skipSymbol "as" then
      return .more (names ++ [(name, some (← expectSymbol "import alias"))])
    else
      return .more (names ++ [(name, none)])) ([] : List (String × Option String))
  closeTag "from"
  return .inclusion token.pos form template

/-- Reads the arguments of a custom tag: in parentheses or, if `tolerant`, bare up to the end of
    the tag. -/
def signature (tolerant : Bool) : Reader Arguments := do
  if (← peek).kind = .leftParen then
    callArguments nested
  else
    unless tolerant do fail .missingArgumentList
    loop (fun args => do
      if (← peek).kind = .blockEnd then return .done args
      unless Arguments.isEmpty args do
        let _ ← expect .comma "',' between arguments"
      return .more (← argument nested args)) {}

/-- Reads a custom tag of the standard form. -/
def standardTag (e : Extension) (hasBody : Bool) (identity : Identity) (isAsync : Bool) :
    Reader Node := do
  let tag ← next
  let args ← signature true
  closeTag tag.value
  let call (nodes : List (List Node)) : Node :=
    .extensionCall tag.pos (ownSite e identity) "run" args.positional args.keyword nodes isAsync
  if hasBody then
    let endTag := "end" ++ tag.value
    let body ← untilBlocks nodes [endTag]
    closeTag endTag
    return call [body]
  else
    return call []

/-- Reads the arguments of a scripted tag. -/
def scriptedSignature : SignatureForm → Reader Arguments
  | .tolerant => signature true
  | .strict => signature false
  | .expression => do return { positional := [← expression] }
  | .none => return {}

/-- Reads bodies one after the other, each with the tag that closes it. -/
def scriptedBodies : List (List String) → Reader (List (List Node))
  | [] => return []
  | stop :: stops => do
    let body ← untilBlocks nodes stop
    let closing ← next
    closeTag closing.value
    return body :: (← scriptedBodies stops)

/-- Reads a scripted tag. -/
def scriptedTag (e : Extension) (script : TagScript) : Reader Node := do
  let tag ← next
  if let some word := script.skipped then
    let _ ← skipSymbol word
  if let some message := script.refusal then
    fail (.refused message)
  let args ← scriptedSignature script.signature
  closeTag tag.value
  let read ← scriptedBodies nodes script.bodies
  return scriptedNode e script tag.pos args read

/-- Reads a custom tag. -/
def customTag (e : Extension) : Reader Node :=
  match e.form with
  | .standard hasBody identity isAsync => standardTag nodes e hasBody identity isAsync
  | .scripted script => scriptedTag nodes e script

/-- The reader of a built-in tag. -/
def builtin? (name : String) : Option (Reader Node) :=
  if name ∈ ["if", "ifAsync"] then some (conditional nodes)
  else if name ∈ ["for", "asyncEach", "asyncAll"] then some (forEach nodes)
  else if name = "set" then some (assignment nodes)
  else if name = "block" then some (block nodes)
  else if name = "macro" then some (macroDefinition nodes)
  else if name = "call" then some (callBlock nodes)
  else if name = "filter" then some (filterBlock nodes)
  else if name = "extends" then some parentTemplate
  else if name = "include" then some includedTemplate
  else if name = "import" then some importedTemplate
  else if name = "from" then some importedNames
  else none

variable (env : Environment)

/-- Reads a statement from its tag name on. -/
def statementOver : Reader Node := do
  let token ← peek
  unless token.kind = .symbol do fail .missingTagName
  match builtin? nodes token.value with
  | some reader => reader
  | none =>
    match env.tagOwner? token.value with
    | some e => customTag nodes e
    | none => failAt (.unknownTag token.value) token

/-- Reads one more node, onto the nodes before it in reverse, or stops: at the name of a tag that is
    awaited, or at the end of the source when none is. -/
def nodeStep (read : List Node) : Reader (Step (List Node) (List Node)) := do
  let token ← peek
  let s ← get
  match token.kind with
  | .eof =>
    unless s.awaited.isEmpty do fail (.unexpectedEnd s.awaited)
    return .done read.reverse
  | .data | .raw =>
    let _ ← take
    return .more (.data token.pos token.value :: read)
  | .variableStart =>
    let _ ← take
    if (← peek).kind = .variableEnd then fail .emptyVariableTag
    let value ← expression
    let _ ← expect .variableEnd "end of variable tag"
    return .more (.output token.pos [value] :: read)
  | .blockStart =>
    let _ ← take
    let name ← peek
    if name.kind = .symbol && s.awaited.contains name.value then return .done read.reverse
    return .more ((← statementOver nodes env) :: read)
  | _ => fail (.misplaced token)

/-- Reads nodes up to one of the tags that are awaited, or up to the end of the source. -/
def nodesOver : Reader (List Node) :=
  loop (nodeStep nodes env) []

end Statements

/-- Reads nodes. Inside a body another one may only be entered after a token has been taken. -/
def nodes (env : Environment) (s : State) : EStateM.Result Halt State (List Node) :=
  nodesOver (fun t => if _h : t.left < s.left then nodes env t else .error (.repeated t.pos) t) env s
termination_by s.left

/-- Reads all nodes of a template. -/
def root (env : Environment) : Reader (List Node) := nodes env

end IndexParser

end TemplateManifest
