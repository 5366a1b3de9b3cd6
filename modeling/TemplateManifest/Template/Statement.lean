import TemplateManifest.Template.Addon
import TemplateManifest.Template.Expression

/-!
The grammar of statements: the built-in block tags and the custom ones.

Each statement is a parser over the parser of bodies, which reads nodes up to one of several
closing tags and stops at the closing tag's name. Bodies are read from a strictly shorter stream
than the statement they belong to.
-/

namespace TemplateManifest

namespace Statement

open TemplateManifest.Parser

/-- The parser of bodies: it is given the names of the tags that close the body. -/
abbrev Bodies := List String → Parser (List Node)

/-- A branch of a conditional statement. -/
structure Branch where
  pos : Position
  cond : Node
  body : List Node
deriving Repr, Inhabited

/-- The nodes of a chain of branches, each later one nested in the one before it. -/
def chain (branches : List Branch) (otherwise : List Node) : List Node :=
  branches.foldr (fun b otherwise => [.ifElse b.pos b.cond b.body otherwise]) otherwise

/-- The conditional statement of a first branch and later ones. -/
def conditionalNode (branches : List Branch) (otherwise : List Node) : Node :=
  (chain branches otherwise).headD default

/-- Reads a conditional statement. -/
def conditional (bodies : Bodies) : Parser Node := do
  let first ← next
  iterate (fun (branches, keyword) => do
    let cond ← expression
    closeTag keyword.value
    let body ← bodies ["elif", "elseif", "else", "endif"]
    let branches := branches ++ [⟨keyword.pos, cond, body⟩]
    let closing ← next
    if closing.value ∈ ["elif", "elseif"] then
      return .more (branches, closing)
    else if closing.value = "else" then
      closeTag "else"
      let otherwise ← bodies ["endif"]
      closeTag "endif"
      return .done (conditionalNode branches otherwise)
    else
      closeTag "endif"
      return .done (conditionalNode branches [])) (([] : List Branch), first)

/-- The name of the tag that closes a loop. -/
def loopEnd (keyword : String) : String :=
  if keyword = "asyncEach" then "endeach"
  else if keyword = "asyncAll" then "endall"
  else "endfor"

/-- Reads a loop. -/
def loop (bodies : Bodies) : Parser Node := do
  let token ← next
  let endTag := loopEnd token.value
  let targets ← names "loop variable"
  expectKeyword "in"
  let iterated ← expression
  closeTag token.value
  let body ← bodies [endTag, "else"]
  if ← skipSymbol "else" then
    closeTag "else"
    let otherwise ← bodies [endTag]
    closeTag endTag
    return .forEach token.pos targets iterated body otherwise
  else
    closeTag endTag
    return .forEach token.pos targets iterated body []

/-- Reads an assignment of a value, or of the output of a body. -/
def assignment (bodies : Bodies) : Parser Node := do
  let token ← next
  let targets ← names "variable name"
  if ← skipOperator "=" then
    let value ← expression
    closeTag "set"
    return .assign token.pos targets value
  else
    closeTag "set"
    let body ← bodies ["endset"]
    closeTag "endset"
    return .assign token.pos targets (.capture token.pos body)

/-- Reads a named block. -/
def block (bodies : Bodies) : Parser Node := do
  let token ← next
  let name ← expectSymbol "block name"
  closeTag "block"
  let body ← bodies ["endblock"]
  expectKeyword "endblock"
  let _ ← skipSymbol name
  let _ ← expect .blockEnd "end of block in 'endblock' tag"
  return .block token.pos name body

/-- Reads one more parameter, with or without a default. -/
def parameter (params : List (String × Option Node)) : Parser (List (String × Option Node)) := do
  let name ← expectSymbol "parameter name"
  if ← skipOperator "=" then return params ++ [(name, some (← expression))]
  else return params ++ [(name, none)]

/-- Reads parameters in parentheses. -/
def parameters : Parser (List (String × Option Node)) := do
  let _ ← expect .leftParen "'(' to open parameter list"
  commaSeparated .rightParen "',' between parameters" List.isEmpty parameter []

/-- Reads the definition of a macro. -/
def macroDefinition (bodies : Bodies) : Parser Node := do
  let token ← next
  let name ← expectSymbol "macro name"
  let params ← parameters
  closeTag "macro"
  let body ← bodies ["endmacro"]
  closeTag "endmacro"
  return .macroDef token.pos name params body

/-- Reads a call block: its body becomes the argument `caller` of the macro call. -/
def callBlock (bodies : Bodies) : Parser Node := do
  let token ← next
  let params ← if (← peek).kind = .leftParen then parameters else pure []
  let called ← expression
  closeTag "call"
  let body ← bodies ["endcall"]
  closeTag "endcall"
  match called with
  | .call pos callee args kwargs =>
    let caller := ("caller", .callerBody token.pos params body)
    return .output token.pos [.call pos callee args (kwargs ++ [caller])]
  | _ => failAt .noMacroCall token

/-- Reads a filter block. -/
def filterBlock (bodies : Bodies) : Parser Node := do
  let token ← next
  let nameToken ← peek
  let name ← Expression.filterName
  let args ← Expression.optionalArguments Expression.nested
  closeTag "filter"
  let body ← bodies ["endfilter"]
  closeTag "endfilter"
  return .output token.pos
    [.filter nameToken.pos name (.capture token.pos body) args.positional args.keyword]

/-- Reads the tag of a parent template. -/
def parentTemplate : Parser Node := do
  let token ← next
  let template ← expression
  closeTag "extends"
  return .inclusion token.pos .parent template

/-- Reads the tag of an included template. -/
def includedTemplate : Parser Node := do
  let token ← next
  let template ← expression
  let ignoreMissing ← skipSymbol "ignore"
  if ignoreMissing then expectKeyword "missing"
  closeTag "include"
  return .inclusion token.pos (.part ignoreMissing) template

/-- Reads `with context` or `without context`, if it is there. -/
def withContext : Parser (Option Bool) := do
  if ← skipSymbol "with" then
    expectKeyword "context"
    return some true
  else if ← skipSymbol "without" then
    expectKeyword "context"
    return some false
  else
    return none

/-- Reads the tag of an imported template. -/
def importedTemplate : Parser Node := do
  let token ← next
  let template ← expression
  expectKeyword "as"
  let target ← expectSymbol "import target"
  let context ← withContext
  closeTag "import"
  return .inclusion token.pos (.module target (context.getD false)) template

/-- Reads the tag that imports some names of a template. -/
def importedNames : Parser Node := do
  let token ← next
  let template ← expression
  expectKeyword "import"
  let form ← iterate (fun names => do
    if let some context ← withContext then
      return .done (.members names context)
    if (← peek).kind = .blockEnd then
      if names.isEmpty then fail .noImportName
      return .done (.members names false)
    unless names.isEmpty do
      let _ ← expect .comma "',' between import names"
    let name ← expectSymbol "import name"
    if ← skipSymbol "as" then
      return .more (names ++ [(name, some (← expectSymbol "import alias"))])
    else
      return .more (names ++ [(name, none)])) ([] : List (String × Option String))
  closeTag "from"
  return .inclusion token.pos form template

/-- Reads the arguments of a custom tag: in parentheses or, if `tolerant`, bare up to the end of
    the tag. -/
def signature (tolerant : Bool) : Parser Expression.Arguments := do
  if (← peek).kind = .leftParen then
    Expression.callArguments Expression.nested
  else
    unless tolerant do fail .missingArgumentList
    iterate (fun args => do
      if (← peek).kind = .blockEnd then return .done args
      unless Expression.Arguments.isEmpty args do
        let _ ← expect .comma "',' between arguments"
      return .more (← Expression.argument Expression.nested args)) {}

/-- The call site of an extension that names it by the given identity. -/
def ownSite (e : Extension) : Identity → Site
  | .name => .byName e.name
  | .handle => .byHandle e.handle

/-- Reads a custom tag of the standard form. -/
def standardTag (bodies : Bodies) (e : Extension) (hasBody : Bool) (identity : Identity)
    (isAsync : Bool) : Parser Node := do
  let tag ← next
  let args ← signature true
  closeTag tag.value
  let call (nodes : List (List Node)) : Node :=
    .extensionCall tag.pos (ownSite e identity) "run" args.positional args.keyword nodes isAsync
  if hasBody then
    let endTag := "end" ++ tag.value
    let body ← bodies [endTag]
    closeTag endTag
    return call [body]
  else
    return call []

/-- Reads the arguments of a scripted tag. -/
def scriptedSignature : SignatureForm → Parser Expression.Arguments
  | .tolerant => signature true
  | .strict => signature false
  | .expression => do return { positional := [← expression] }
  | .none => return {}

/-- Reads bodies one after the other, each with the tag that closes it. -/
def scriptedBodies (bodies : Bodies) : List (List String) → Parser (List (List Node))
  | [] => return []
  | stop :: stops => do
    let body ← bodies stop
    let closing ← next
    closeTag closing.value
    return body :: (← scriptedBodies bodies stops)

/-- The node of a scripted tag. -/
def scriptedNode (e : Extension) (script : TagScript) (pos : Position)
    (args : Expression.Arguments) (bodies : List (List Node)) : Node :=
  let site :=
    match script.site with
    | .own identity => ownSite e identity
    | .fixed site => site
  let call (positional : List Node) (bodies : List (List Node)) : Node :=
    .extensionCall pos site script.method positional args.keyword bodies script.callIsAsync
  match script.result, args.positional with
  | .firstArgument, node :: _ => node
  | .output, positional => .output pos (positional ++ bodies.flatten)
  | .bodiesAsArguments, positional => call (positional ++ bodies.flatten) []
  | _, positional => call positional bodies

/-- Reads a scripted tag. -/
def scriptedTag (bodies : Bodies) (e : Extension) (script : TagScript) : Parser Node := do
  let tag ← next
  if let some word := script.skipped then
    let _ ← skipSymbol word
  if let some message := script.refusal then
    fail (.refused message)
  let args ← scriptedSignature script.signature
  closeTag tag.value
  let read ← scriptedBodies bodies script.bodies
  return scriptedNode e script tag.pos args read

/-- Reads a custom tag. -/
def customTag (bodies : Bodies) (e : Extension) : Parser Node :=
  match e.form with
  | .standard hasBody identity isAsync => standardTag bodies e hasBody identity isAsync
  | .scripted script => scriptedTag bodies e script

/-- The parser of a built-in tag. -/
def builtin? (bodies : Bodies) (name : String) : Option (Parser Node) :=
  if name ∈ ["if", "ifAsync"] then some (conditional bodies)
  else if name ∈ ["for", "asyncEach", "asyncAll"] then some (loop bodies)
  else if name = "set" then some (assignment bodies)
  else if name = "block" then some (block bodies)
  else if name = "macro" then some (macroDefinition bodies)
  else if name = "call" then some (callBlock bodies)
  else if name = "filter" then some (filterBlock bodies)
  else if name = "extends" then some parentTemplate
  else if name = "include" then some includedTemplate
  else if name = "import" then some importedTemplate
  else if name = "from" then some importedNames
  else none

/-- Reads a statement from its tag name on. -/
def statementOver (env : Environment) (bodies : Bodies) : Parser Node := do
  let token ← peek
  unless token.kind = .symbol do fail .missingTagName
  match builtin? bodies token.value with
  | some parser => parser
  | none =>
    match env.tagOwner? token.value with
    | some e => customTag bodies e
    | none => failAt (.unknownTag token.value) token

/-- Reads one more node, onto the nodes before it in reverse, or stops: at the name of a closing
    tag, or at the end of the source when no closing tag is awaited. -/
def nodeStep (env : Environment) (bodies : Bodies) (stop : List String) (nodes : List Node) :
    Parser (Step (List Node) (List Node)) := do
  let token ← peek
  match token.kind with
  | .eof =>
    unless stop.isEmpty do fail (.unexpectedEnd stop)
    return .done nodes.reverse
  | .data | .raw =>
    let _ ← next
    return .more (.data token.pos token.value :: nodes)
  | .variableStart =>
    let _ ← next
    if (← peek).kind = .variableEnd then fail .emptyVariableTag
    let value ← expression
    let _ ← expect .variableEnd "end of variable tag"
    return .more (.output token.pos [value] :: nodes)
  | .blockStart =>
    let _ ← next
    let name ← peek
    if name.kind = .symbol && stop.contains name.value then return .done nodes.reverse
    return .more ((← statementOver env bodies) :: nodes)
  | _ => fail (.misplaced token)

/-- Reads nodes up to one of the closing tags `stop`, or up to the end of the source when there
    are none. -/
def nodesOver (env : Environment) (bodies : Bodies) (stop : List String) :
    Parser (List Node) :=
  iterate (nodeStep env bodies stop) []

/-- The parser of bodies nested at most so deep. -/
def bodiesTo (env : Environment) : Nat → Bodies
  | 0 => fun _ => fail .tooDeep
  | depth + 1 => nodesOver env (bodiesTo env depth)

/-- The parser of bodies. -/
def bodies (env : Environment) : Bodies := fun stop s =>
  bodiesTo env (s.pending.length + 1) stop s

end Statement

/-- Reads all nodes of a template. -/
def Parser.root (env : Environment) : Parser (List Node) :=
  Statement.bodies env []

end TemplateManifest
