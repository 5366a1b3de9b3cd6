import TemplateManifest.Compile.Scope
import TemplateManifest.Compile.Vocabulary

/-!
From syntax trees to the emitted script. Expressions become expressions, and statements become
statements that add to the output of the render function around them.
-/

namespace TemplateManifest

open Script Vocabulary

/-- What code generation needs to know besides the tree. -/
structure CodeContext where
  template : String
  env : Environment
  /-- Some call must be awaited, so every function is asynchronous. -/
  isAsync : Bool

namespace Node

/-- A callee as error messages of the running template name it. -/
def calleeText : Node → String
  | symbol _ name => name
  | lookup _ target (literal _ (.str key)) => calleeText target ++ "[\"" ++ key ++ "\"]"
  | lookup _ target _ => calleeText target ++ "[...]"
  | call _ callee _ _ => calleeText callee ++ "()"
  | _ => "--expression--"

/-- The operand needs parentheses next to an operator. A sum does not as the operand of a sum,
    since the parts of a path are joined by a chain of sums. -/
def needsParens (inSum : Bool) : Node → Bool
  | binary _ .add _ _ => !inSum
  | binary _ _ _ _ | compare _ _ _ | inlineIf _ _ _ _ | test _ _ _ _ _ => true
  | unary _ .not _ => true
  | _ => false

/-- The code of an operand, in parentheses where it needs them. -/
def operandCode (inSum : Bool) (node : Node) (code : Expr) : Expr :=
  if node.needsParens inSum then .paren code else code

end Node

/-- The operator of a comparison. -/
def CompareOp.code : CompareOp → Operator
  | .eq => .eq
  | .strictEq => .strictEq
  | .ne => .ne
  | .strictNe => .strictNe
  | .lt => .lt
  | .gt => .gt
  | .le => .le
  | .ge => .ge

/-- The sign of a unary operator. -/
def UnaryOp.code : UnaryOp → Sign
  | .not => .not
  | .neg => .neg
  | .pos => .pos

/-- The code of a binary operator on the code of its operands. -/
def BinaryOp.code (op : BinaryOp) (left right : Expr) : Expr :=
  match op with
  | .add => .operation .add left right
  | .sub => .operation .sub left right
  | .mul => .operation .mul left right
  | .div => .operation .div left right
  | .floorDiv => method (name "Math") "floor" [.operation .div left right]
  | .mod => .operation .mod left right
  | .pow => method (name "Math") "pow" [left, right]
  | .concat => .operation .add (.operation .add (.string "") left) right
  | .and => .operation .and left right
  | .or => .operation .or left right
  | .in => runtime "inOperator" [left, right]
  | .notIn => .signed .not (runtime "inOperator" [left, right])

namespace CodeContext

/-- The call, awaited. -/
def awaited (call : Expr) : Expr := .paren (.await call)

/-- The call, awaited if functions are asynchronous. -/
def awaitedIfAsync (cx : CodeContext) (call : Expr) : Expr :=
  if cx.isAsync then awaited call else call

/-- Loads a template. -/
def getTemplate (cx : CodeContext) (target : Expr) (flags : Bool × Option Bool) : Expr :=
  cx.awaitedIfAsync (method (name "env") "getTemplate"
    ([target, truth flags.1, .string cx.template] ++ (flags.2.map truth).toList))

/-- A function without parameters that gives the output of its body. -/
def closure (cx : CodeContext) (body : List Stmt) : Expr :=
  .function cx.isAsync []
    (.declare (.named "output") (some (.string "")) :: (body ++ [.return (name "output")]))

/-- A macro: its parameters without and with defaults, the code of the defaults, and its body.
    The body of a call block stays in the frame of its surroundings. -/
def makeMacro (cx : CodeContext) (isCaller : Bool) (positional : List String)
    (defaults : List (String × Expr)) (body : List Stmt) : Expr :=
  let quoted (names : List String) : Expr := .array (names.map .string)
  let kwargs := name "kwargs"
  let newFrame : Stmt :=
    if isCaller then pushFrame [truth true]
    else .assignAll [.named "frame"] (.create (.member (name "runtime") "Frame") [])
  let function : Expr := .function cx.isAsync (positional.map .param ++ [.named "kwargs"])
    ([.declare (.named "callerFrame") (some (name "frame")), newFrame,
      .assignAll [.named "kwargs"] (.operation .or kwargs (.object [])),
      .guard (hasOwn kwargs (.string "caller")) [setFrame "caller" (.member kwargs "caller")]] ++
      positional.map (fun p => setFrame p (.variable (.param p))) ++
      defaults.map (fun (p, code) =>
        setFrame p (.conditional (hasOwn kwargs (.string p)) (.index kwargs (.string p)) code)) ++
      .declare (.named "output") (some (.string "")) :: (body ++
      [.assignAll [.named "frame"] (name "callerFrame"),
       .return (.create (.member (name "runtime") "SafeString") [name "output"])]))
  runtime "makeMacro" [quoted positional, quoted (defaults.map (·.1)), function]

/-- The name and the calling convention of a filter, if it is known. -/
def filterIsAsync? (cx : CodeContext) (name : String) : Option Bool :=
  match cx.env.filter? name with
  | some filter => some filter.isAsync
  | none => if builtinFilters.contains name then some false else none

/-- A call, awaited if it is asynchronous. -/
def awaitedIf (isAsync : Bool) (call : Expr) : Expr :=
  if isAsync then awaited call else call

end CodeContext

/-- The statements around the body of a loop over `iterated`. -/
def loopCode (arr len i : Variable) (iterated : Expr) (targets : List (String × Variable))
    (body : List Stmt) (otherwise : Option (List Stmt)) : List Stmt :=
  let unpack := 1 < targets.length
  let asEntries : List Stmt :=
    if unpack then
      [.assignAll [arr] (.conditional (runtime "isArray" [.variable arr]) (.variable arr)
        (method (name "Object") "entries" [.variable arr]))]
    else []
  let item (n : Nat) : Expr :=
    let row : Expr := .index (.variable arr) (.variable i)
    if unpack then .index row (number n) else row
  let bindings : List Stmt := targets.zipIdx.flatMap fun ((target, v), n) =>
    [.declare v (some (item n)), setFrame target (.variable v)]
  let counters : List Stmt :=
    let left : Expr := .operation .sub (.variable len) (.variable i)
    [setFrame "loop.index" (.operation .add (.variable i) (number 1)),
     setFrame "loop.index0" (.variable i),
     setFrame "loop.revindex" left,
     setFrame "loop.revindex0" (.operation .sub left (number 1)),
     setFrame "loop.first" (.operation .strictEq (.variable i) (number 0)),
     setFrame "loop.last"
       (.operation .strictEq (.variable i) (.operation .sub (.variable len) (number 1))),
     setFrame "loop.length" (.variable len)]
  let loop : Stmt :=
    .branch (.variable arr)
      (.assignAll [arr] (runtime "fromIterator" [.variable arr]) :: (asEntries ++
        [.declare len (some (.member (.variable arr) "length")),
         .countTo i len (bindings ++ counters ++ body)]))
  let onEmpty : Option Stmt := otherwise.map (.branch (.signed .not (.variable len)))
  [pushFrame [], .declare arr (some iterated), loop] ++ onEmpty.toList ++ [popFrame]

/-- The code of a run of text; an empty one gives none. -/
def dataCode (text : String) : List Stmt :=
  if text.isEmpty then [] else [.append (.named "output") (.string text)]

namespace CodeContext

open Coder

/-- A call of an extension. -/
def extensionCode (e : Extension) (extensionMethod : String) (isAsync : Bool)
    (args : List Expr) : Expr :=
  let getter := method (name "env") "getExtension" [.string e.name]
  awaitedIf (isAsync || e.form.isAsync)
    (.call (.index getter (.string extensionMethod)) (name "context" :: args))

/-- A call of a function of the template, with the place of the call for error messages. -/
def callCode (pos : Position) (called : Expr) (callee : String) (args : List Expr) : Expr :=
  .paren (.sequence
    [.assign (.named "lineno") (number pos.line), .assign (.named "colno") (number pos.col),
     runtime "callWrap" [called, .string callee, name "context", .array args]])

/-- The code that makes one export of an imported template a variable. -/
def memberCode (module : Variable) (exported : String) (v : Variable) : List Stmt :=
  let key : Expr := .string exported
  [.declare v none,
   .guardElse (hasOwn (.variable module) key) [.assignAll [v] (.index (.variable module) key)]
    [.throw (.create (name "Error") [.string ("cannot import '" ++ exported ++ "'")])]]

/-- The code that makes some exports of an imported template variables, each published under
    its own name or another one. -/
def membersCode (module : Variable) : List (String × Option String) → Coder (List Stmt)
  | [] => return []
  | (exported, renamed) :: names => do
    let v ← fresh
    let target := renamed.getD exported
    Coder.bind target v
    let code ← membersCode module names
    return memberCode module exported v ++ publish target v ++ code

/-- The code that imports a template into a new variable. -/
def importCode (cx : CodeContext) (target : Expr) (withContext : Bool) :
    Coder (Variable × List Stmt) := do
  let v ← fresh
  let args := if withContext then [method (name "context") "getVariables" [], name "frame"] else []
  return (v,
    [.declare v (some (cx.getTemplate target (false, some false))),
     .assignAll [v] (cx.awaitedIfAsync (method (.variable v) "getExported" args))])

/-- The code of an inclusion of the template that `target` evaluates to. -/
def inclusionCode (cx : CodeContext) (target : Expr) : Inclusion → Coder (List Stmt)
  | .parent => do
    let v ← fresh
    let blocks : Expr := .member (name "parentTemplate") "blocks"
    return [.declare v (some (cx.getTemplate target (true, none))),
      .assignAll [.named "parentTemplate"] (.variable v),
      .forKeys (.named "n") blocks
        [.run (method (name "context") "addBlock" [name "n", .index blocks (name "n")])]]
  | .part ignoreMissing => do
    let v ← fresh
    let rendered := cx.awaitedIfAsync (method (.variable v) "render"
      [method (name "context") "getVariables" [], name "frame"])
    return [.declare v (some (cx.getTemplate target (false, some ignoreMissing))),
      .guard (.variable v) [.append (.named "output") rendered]]
  | .module exportsName withContext => do
    let (v, code) ← importCode cx target withContext
    Coder.bind exportsName v
    return code ++ publish exportsName v
  | .members names withContext => do
    let (v, code) ← importCode cx target withContext
    return code ++ (← membersCode v names)

/-- The code of a macro from that of its defaults and its body. Only a parameter without a
    default is held by a local variable. -/
def macroCode (cx : CodeContext) (isCaller : Bool) (params : List (String × Option Node))
    (defaults : Coder (List (String × Expr))) (body : Coder (List Stmt)) : Coder Expr :=
  inScope do
    let positional := (params.filter fun p => p.2.isNone).map (·.1)
    bindAll (positional.map fun p => (p, .param p))
    let defaults ← defaults
    let body ← body
    return cx.makeMacro isCaller positional defaults body

mutual

/-- The code of an expression. -/
def expression (cx : CodeContext) : Node → Coder Expr
  | .literal pos value => return .ofNode (.literal pos value) (literal value)
  | .symbol pos symbol => do
    match ← holder? symbol with
    | some v => return .ofNode (.symbol pos symbol) (.variable v)
    | none => return .ofNode (.symbol pos symbol) (contextLookup symbol)
  | .group _ inner => return .paren (← expression cx inner)
  | .array _ items => return .array (← expressions cx items)
  | .dict _ entries => return .object (← entryCode cx entries)
  | .lookup _ target key => do
    let target ← expression cx target
    let key ← expression cx key
    return runtime "memberLookup" [.paren target, key]
  | .call pos callee args kwargs => do
    let called ← expression cx callee
    let args ← expressions cx args
    let kwargs ← keywordCode cx kwargs
    return callCode pos called callee.calleeText (args ++ kwargs)
  | .filter _ filter target args kwargs => do
    match cx.filterIsAsync? filter with
    | none => throw (CompileFault.ofFilter cx.env filter)
    | some isAsync =>
      let target ← expression cx target
      let args ← expressions cx args
      let kwargs ← keywordCode cx kwargs
      return awaitedIf isAsync (method (method (name "env") "getFilter" [.string filter]) "call"
        (name "context" :: target :: (args ++ kwargs)))
  | .test _ target test args negated => do
    let target ← expression cx target
    let args ← expressions cx args
    let call := method (method (name "env") "getTest" [.string test]) "call"
      (name "context" :: target :: args)
    let result : Expr := .paren (.operation .strictEq call (truth true))
    return if negated then .signed .not result else result
  | .unary _ op operand => do
    let code ← expression cx operand
    return .signed op.code (operand.operandCode false code)
  | .binary pos op left right => do
    let l ← expression cx left
    let r ← expression cx right
    let inSum := op = .add
    return .ofNode (.binary pos op left right)
      (op.code (left.operandCode inSum l) (right.operandCode inSum r))
  | .compare _ first rest => do
    let code ← expression cx first
    comparedCode cx (first.operandCode false code) rest
  | .inlineIf _ cond body otherwise => do
    let cond ← expression cx cond
    let body ← expression cx body
    let otherwise ← optionalCode cx otherwise
    return .paren (.conditional cond body otherwise)
  | .extensionCall _ site extensionMethod args kwargs bodies isAsync => do
    match cx.env.extension? site with
    | none => throw (.unknownExtension site)
    | some e =>
      let args ← expressions cx args
      let kwargs ← keywordCode cx kwargs
      let closures ← closureCode cx bodies
      return extensionCode e extensionMethod isAsync (args ++ kwargs ++ closures)
  | .callerBody _ params body =>
    macroCode cx true params (defaultCode cx params) (statements cx body)
  | .capture _ body => do
    let body ← inScope (statements cx body)
    return cx.awaitedIfAsync (.call (.paren (cx.closure body)) [])
  | node => throw (.noValue node.describe node.pos)

/-- The code of some expressions. -/
def expressions (cx : CodeContext) : List Node → Coder (List Expr)
  | [] => return []
  | node :: nodes => do
    let code ← expression cx node
    return code :: (← expressions cx nodes)

/-- The code of an optional expression; an empty string stands for an absent one. -/
def optionalCode (cx : CodeContext) : Option Node → Coder Expr
  | none => return .string ""
  | some node => expression cx node

/-- The code of the entries of a dictionary; a key that is no literal is computed. -/
def entryCode (cx : CodeContext) : List (Node × Node) → Coder (List (Expr × Expr))
  | [] => return []
  | (.literal pos key, value) :: entries => do
    let code ← expression cx value
    return (.ofNode (.literal pos key) (literal key), code) :: (← entryCode cx entries)
  | (key, value) :: entries => do
    let key ← expression cx key
    let code ← expression cx value
    return (.array [key], code) :: (← entryCode cx entries)

/-- The code of keyword arguments: one further argument, if there are any. -/
def keywordCode (cx : CodeContext) : List (String × Node) → Coder (List Expr)
  | [] => return []
  | (keyword, value) :: kwargs => do
    let code ← expression cx value
    let entries ← keywordEntries cx kwargs
    return [runtime "makeKeywordArgs" [.object ((.string keyword, code) :: entries)]]

/-- The entries of the object of keyword arguments. -/
def keywordEntries (cx : CodeContext) : List (String × Node) → Coder (List (Expr × Expr))
  | [] => return []
  | (keyword, value) :: kwargs => do
    let code ← expression cx value
    return (.string keyword, code) :: (← keywordEntries cx kwargs)

/-- The code of a chain of comparisons after the code of what stands before it. -/
def comparedCode (cx : CodeContext) (code : Expr) : List (CompareOp × Node) → Coder Expr
  | [] => return code
  | (op, operand) :: rest => do
    let operandCode ← expression cx operand
    comparedCode cx (.operation op.code code (operand.operandCode false operandCode)) rest

/-- The closures of the bodies of a custom tag. -/
def closureCode (cx : CodeContext) : List (List Node) → Coder (List Expr)
  | [] => return []
  | body :: bodies => do
    let body ← inScope (statements cx body)
    return cx.closure body :: (← closureCode cx bodies)

/-- The code of the defaults of parameters. -/
def defaultCode (cx : CodeContext) : List (String × Option Node) → Coder (List (String × Expr))
  | [] => return []
  | (_, none) :: params => defaultCode cx params
  | (param, some node) :: params => do
    let code ← expression cx node
    return (param, code) :: (← defaultCode cx params)

/-- The code of a value that is put out. -/
def outputCode (cx : CodeContext) : List Node → Coder (List Stmt)
  | [] => return []
  | .data _ text :: nodes => do
    let code ← outputCode cx nodes
    return dataCode text ++ code
  | node :: nodes => do
    let value ← expression cx node
    let value :=
      if cx.env.options.throwOnUndefined then
        runtime "ensureDefined" [value, number node.pos.line, number node.pos.col]
      else value
    return outputValue value cx.env.options.autoescape :: (← outputCode cx nodes)

/-- The code of a statement. -/
def statement (cx : CodeContext) : Node → Coder (List Stmt)
  | .data _ text => return dataCode text
  | .output _ nodes => outputCode cx nodes
  | .ifElse _ cond body otherwise => do
    let cond ← expression cx cond
    let body ← statements cx body
    let code ← statements cx otherwise
    return [if otherwise.isEmpty then .branch cond body else .branchElse cond body code]
  | .forEach _ targets iterated body otherwise => do
    let iterated ← expression cx iterated
    let arr ← fresh
    let len ← fresh
    let i ← fresh
    let (holders, body) ← inScope do
      let holders ← freshAll targets.length
      bindAll (targets.zip holders)
      return (holders, ← statements cx body)
    let code ← statements cx otherwise
    return loopCode arr len i iterated (targets.zip holders) body
      (if otherwise.isEmpty then none else some code)
  | .assign _ targets value => do
    let value ← expression cx value
    let holders ← variablesFor targets
    bindAll (targets.zip holders)
    return holders.map (fun v => .declare v none) ++ .assignAll holders value ::
      (targets.zip holders).flatMap fun (target, v) => publish target v
  | .block _ blockName body => do
    addBlock ⟨blockName, body⟩
    let call := cx.awaitedIfAsync
      (.call (method (name "context") "getBlock" [.string blockName]) renderArguments)
    return [.branch (.signed .not (name "parentTemplate")) [.append (.named "output") call]]
  | .macroDef _ macroName params body => do
    let v ← fresh
    let code ← macroCode cx false params (defaultCode cx params) (statements cx body)
    Coder.bind macroName v
    return .declare v (some code) :: publish macroName v
  | .inclusion _ form template => do
    let target ← expression cx template
    inclusionCode cx target form
  | .extensionCall _ site extensionMethod args kwargs bodies isAsync => do
    match cx.env.extension? site with
    | none => throw (.unknownExtension site)
    | some e =>
      let args ← expressions cx args
      let kwargs ← keywordCode cx kwargs
      let closures ← closureCode cx bodies
      let value := extensionCode e extensionMethod isAsync (args ++ kwargs ++ closures)
      return [outputValue value cx.env.options.autoescape]
  | node => throw (.noStatement node.describe node.pos)

/-- The code of some statements. -/
def statements (cx : CodeContext) : List Node → Coder (List Stmt)
  | [] => return []
  | node :: nodes => do
    let code ← statement cx node
    return code ++ (← statements cx nodes)

end

theorem expression_callerBody (cx : CodeContext) (pos : Position)
    (params : List (String × Option Node)) (body : List Node) :
    cx.expression (.callerBody pos params body) =
      macroCode cx true params (cx.defaultCode params) (cx.statements body) := by
  rw [expression]

theorem statement_output (cx : CodeContext) (pos : Position) (nodes : List Node) :
    cx.statement (.output pos nodes) = cx.outputCode nodes := by
  rw [statement]

end CodeContext

end TemplateManifest
