import TemplateManifest.Proofs.Template.Reading
import TemplateManifest.Template.Statement

/-!
The words that spell a syntax tree, and the trees that they spell: those whose operands sit at the
levels that the grammar asks for.

The levels of binding are, from the loosest to the tightest: 0 for an inline `if`, 1 for `or`, 2
for `and`, 3 for `not`, 4 for `in`, 5 for tests, 6 for comparisons, 7 for `~`, 8 for sums, 9 for
products, 10 for powers, 11 for signs, 12 for filters, 13 for calls and lookups, and 14 for what
has no operator at all.
-/

namespace TemplateManifest

open Parser

namespace Word

abbrev leftParen : Word := (.leftParen, "(")

abbrev rightParen : Word := (.rightParen, ")")

abbrev leftBracket : Word := (.leftBracket, "[")

abbrev rightBracket : Word := (.rightBracket, "]")

abbrev leftCurly : Word := (.leftCurly, "\x7b")

abbrev rightCurly : Word := (.rightCurly, "\x7d")

abbrev colon : Word := (.colon, ":")

abbrev pipe : Word := (.pipe, "|")

abbrev assigns : Word := (.operator, "=")

abbrev symbol (name : String) : Word := (.symbol, name)

/-- The end of a block tag. -/
abbrev tagEnd : Word := (.blockEnd, "%\x7d")

/-- The mark that opens a block tag. -/
abbrev tagOpen : Word := (.blockStart, "\x7b%")

/-- The start of a block tag, with its name. -/
def tagStart (name : String) : List Word := [tagOpen, symbol name]

/-- A whole block tag that is only a name. -/
def bareTag (name : String) : List Word := tagStart name ++ [tagEnd]

/-- Names with commas between them. -/
def names : List String → List Word
  | [] => []
  | name :: more => symbol name :: more.flatMap fun name => [comma, symbol name]

/-- The words of a filter's name: its parts with points between them. -/
def dotted (name : String) : List Word :=
  match (name.toList.splitOn '.').map String.ofList with
  | [] => []
  | part :: parts => symbol part :: parts.flatMap fun part => [(.operator, "."), symbol part]

/-- Arguments in parentheses, or nothing where there are none. -/
def optionalArguments (items : List (List Word)) : List Word :=
  if items.isEmpty then [] else leftParen :: listed rightParen items

end Word

/-- The word of a literal. -/
def Literal.word : Literal → Word
  | .str value => (.string, value)
  | .int value => (.int, integerText value)
  | .float value => (.float, value.text)
  | .bool value => (.symbol, if value then "true" else "false")
  | .none => (.symbol, "none")

/-- The word of a unary operator. -/
def UnaryOp.word : UnaryOp → Word
  | .not => (.symbol, "not")
  | .neg => (.operator, "-")
  | .pos => (.operator, "+")

/-- The words of a binary operator. -/
def BinaryOp.words : BinaryOp → List Word
  | .add => [(.operator, "+")]
  | .sub => [(.operator, "-")]
  | .mul => [(.operator, "*")]
  | .div => [(.operator, "/")]
  | .floorDiv => [(.operator, "//")]
  | .mod => [(.operator, "%")]
  | .pow => [(.operator, "**")]
  | .concat => [(.operator, "~")]
  | .and => [(.symbol, "and")]
  | .or => [(.symbol, "or")]
  | .in => [(.symbol, "in")]
  | .notIn => [(.symbol, "not"), (.symbol, "in")]

/-- The word of a comparison. -/
def CompareOp.word : CompareOp → Word
  | .eq => (.operator, "==")
  | .strictEq => (.operator, "===")
  | .ne => (.operator, "!=")
  | .strictNe => (.operator, "!==")
  | .lt => (.operator, "<")
  | .gt => (.operator, ">")
  | .le => (.operator, "<=")
  | .ge => (.operator, ">=")

/-- How tightly a unary operator binds. -/
def UnaryOp.level : UnaryOp → Nat
  | .not => 3
  | .neg | .pos => 11

/-- How tightly a binary operator binds. -/
def BinaryOp.level : BinaryOp → Nat
  | .or => 1
  | .and => 2
  | .in | .notIn => 4
  | .concat => 7
  | .add | .sub => 8
  | .mul | .div | .floorDiv | .mod => 9
  | .pow => 10

namespace Node

/-- How tightly an expression binds. -/
def level : Node → Nat
  | inlineIf _ _ _ _ => 0
  | binary _ op _ _ => op.level
  | unary _ op _ => op.level
  | test _ _ _ _ _ => 5
  | compare _ _ _ => 6
  | filter _ _ _ _ _ => 12
  | lookup _ _ _ | call _ _ _ _ => 13
  | _ => 14

/-- The node is the body of a call block. -/
def isCallerBody : Node → Bool
  | callerBody _ _ _ => true
  | _ => false

/-- The words at the end of a tag that imports names. -/
def contextWords (names : List (String × Option String)) (withContext : Bool) : List Word :=
  if withContext then [.symbol "with", .symbol "context"]
  else if names.isEmpty then [.symbol "without", .symbol "context"]
  else []

/-- The words of an imported name. -/
def importWords : String × Option String → List Word
  | (name, none) => [.symbol name]
  | (name, some renamed) => [.symbol name, .symbol "as", .symbol renamed]

/-- The words of imported names, with commas between them. -/
def importedWords : List (String × Option String) → List Word
  | [] => []
  | entry :: names => importWords entry ++ names.flatMap fun entry => comma :: importWords entry

/-- The words of an inclusion of the template that some words spell. -/
def inclusionWords (template : List Word) : Inclusion → List Word
  | .parent => Word.tagStart "extends" ++ template ++ [Word.tagEnd]
  | .part ignoreMissing =>
    Word.tagStart "include" ++ template ++
      (if ignoreMissing then [.symbol "ignore", .symbol "missing"] else []) ++ [Word.tagEnd]
  | .module target withContext =>
    Word.tagStart "import" ++ template ++ [.symbol "as", .symbol target] ++
      (if withContext then [.symbol "with", .symbol "context"] else []) ++ [Word.tagEnd]
  | .members names withContext =>
    Word.tagStart "from" ++ template ++ .symbol "import" ::
      (importedWords names ++ contextWords names withContext ++ [Word.tagEnd])

section

variable (tagOf : Node → String)

mutual

/-- The words that spell a node; `tagOf` tells by which of its tags an extension is called. -/
def words : Node → List Word
  | .data _ text => [(.data, text)]
  | .output _ [.filter _ name (.capture _ body) args kwargs] =>
    Word.tagStart "filter" ++ Word.dotted name ++
      Word.optionalArguments (spellings args ++ keywordSpellings kwargs) ++ [Word.tagEnd] ++
      (spellings body).flatten ++ Word.bareTag "endfilter"
  | .output _ [.call pos callee args kwargs] =>
    if kwargs.any fun entry => entry.2.isCallerBody then
      Word.tagStart "call" ++ .leftParen :: listed .rightParen (callerParamSpellings kwargs) ++
        words callee ++ .leftParen ::
          listed .rightParen (spellings args ++ keywordSpellings kwargs) ++ [Word.tagEnd] ++
        callerBodyWords kwargs ++ Word.bareTag "endcall"
    else (.variableStart, "\x7b\x7b") :: words (.call pos callee args kwargs) ++
      [(.variableEnd, "\x7d\x7d")]
  | .output _ values =>
    (.variableStart, "\x7b\x7b") :: (spellings values).flatten ++ [(.variableEnd, "\x7d\x7d")]
  | .ifElse _ cond body otherwise =>
    Word.tagStart "if" ++ words cond ++ [Word.tagEnd] ++ (spellings body).flatten ++
      otherwiseWords otherwise
  | .forEach _ targets iterated body otherwise =>
    Word.tagStart "for" ++ Word.names targets ++ .symbol "in" :: words iterated ++
      [Word.tagEnd] ++ (spellings body).flatten ++
      (if otherwise.isEmpty then [] else Word.bareTag "else" ++ (spellings otherwise).flatten) ++
      Word.bareTag "endfor"
  | .assign _ targets (.capture _ body) =>
    Word.tagStart "set" ++ Word.names targets ++ [Word.tagEnd] ++ (spellings body).flatten ++
      Word.bareTag "endset"
  | .assign _ targets value =>
    Word.tagStart "set" ++ Word.names targets ++ .assigns :: words value ++ [Word.tagEnd]
  | .block _ name body =>
    Word.tagStart "block" ++ [.symbol name, Word.tagEnd] ++ (spellings body).flatten ++
      Word.bareTag "endblock"
  | .macroDef _ name params body =>
    Word.tagStart "macro" ++ .symbol name :: .leftParen ::
      listed .rightParen (paramSpellings params) ++ [Word.tagEnd] ++ (spellings body).flatten ++
      Word.bareTag "endmacro"
  | .inclusion _ form template => inclusionWords (words template) form
  | .extensionCall pos site method args kwargs bodies isAsync =>
    let tag := tagOf (.extensionCall pos site method args kwargs bodies isAsync)
    Word.tagStart tag ++ .leftParen ::
      listed .rightParen (spellings args ++ keywordSpellings kwargs) ++ [Word.tagEnd] ++
      (bodySpellings bodies).flatMap fun body => body ++ Word.bareTag ("end" ++ tag)
  | .callerBody _ _ _ | .capture _ _ => []
  | .literal _ value => [value.word]
  | .symbol _ name => [.symbol name]
  | .group _ inner => .leftParen :: words inner ++ [.rightParen]
  | .array _ items => .leftBracket :: listed .rightBracket (spellings items)
  | .dict _ entries => .leftCurly :: listed .rightCurly (entrySpellings entries)
  | .lookup _ target key => words target ++ .leftBracket :: words key ++ [.rightBracket]
  | .call _ callee args kwargs =>
    words callee ++ .leftParen :: listed .rightParen (spellings args ++ keywordSpellings kwargs)
  | .filter _ name target args kwargs =>
    words target ++ .pipe :: Word.dotted name ++
      Word.optionalArguments (spellings args ++ keywordSpellings kwargs)
  | .test _ target name args negated =>
    words target ++ .symbol "is" :: (if negated then [.symbol "not"] else []) ++ .symbol name ::
      Word.optionalArguments (spellings args)
  | .unary _ op operand => op.word :: words operand
  | .binary _ op left right => words left ++ op.words ++ words right
  | .compare _ first rest => words first ++ (comparedSpellings rest).flatten
  | .inlineIf _ cond body otherwise =>
    words body ++ .symbol "if" :: words cond ++ alternativeWords otherwise

/-- The words of each of some nodes. -/
def spellings : List Node → List (List Word)
  | [] => []
  | node :: nodes => words node :: spellings nodes

/-- The words of keyword arguments; the body of a call block is none of them. -/
def keywordSpellings : List (String × Node) → List (List Word)
  | [] => []
  | (_, .callerBody _ _ _) :: kwargs => keywordSpellings kwargs
  | (name, value) :: kwargs => (.symbol name :: .assigns :: words value) :: keywordSpellings kwargs

/-- The words of the parameters of a call block. -/
def callerParamSpellings : List (String × Node) → List (List Word)
  | [] => []
  | (_, .callerBody _ params _) :: _ => paramSpellings params
  | _ :: kwargs => callerParamSpellings kwargs

/-- The words of the body of a call block. -/
def callerBodyWords : List (String × Node) → List Word
  | [] => []
  | (_, .callerBody _ _ body) :: _ => (spellings body).flatten
  | _ :: kwargs => callerBodyWords kwargs

/-- The words of the entries of a dictionary. -/
def entrySpellings : List (Node × Node) → List (List Word)
  | [] => []
  | (key, value) :: entries => (words key ++ .colon :: words value) :: entrySpellings entries

/-- The words of the later operands of a chain of comparisons, with the operators before them. -/
def comparedSpellings : List (CompareOp × Node) → List (List Word)
  | [] => []
  | (op, operand) :: rest => (op.word :: words operand) :: comparedSpellings rest

/-- The words of the alternative of an inline `if`. -/
def alternativeWords : Option Node → List Word
  | none => []
  | some node => .symbol "else" :: words node

/-- The words of parameters. -/
def paramSpellings : List (String × Option Node) → List (List Word)
  | [] => []
  | (name, none) :: params => [.symbol name] :: paramSpellings params
  | (name, some default) :: params =>
    (.symbol name :: .assigns :: words default) :: paramSpellings params

/-- The words of each of some bodies. -/
def bodySpellings : List (List Node) → List (List Word)
  | [] => []
  | body :: bodies => (spellings body).flatten :: bodySpellings bodies

/-- The words from the end of a branch on; a condition alone in the other branch is an `elif`. -/
def otherwiseWords : List Node → List Word
  | [] => Word.bareTag "endif"
  | [.ifElse _ cond body otherwise] =>
    Word.tagStart "elif" ++ words cond ++ [Word.tagEnd] ++ (spellings body).flatten ++
      otherwiseWords otherwise
  | node :: nodes =>
    Word.bareTag "else" ++ words node ++ (spellings nodes).flatten ++ Word.bareTag "endif"

end

end

mutual

/-- The node without the places where it and the nodes in it stand. -/
def unplaced : Node → Node
  | .data _ text => .data .first text
  | .output _ values => .output .first (unplacedAll values)
  | .ifElse _ cond body otherwise =>
    .ifElse .first (unplaced cond) (unplacedAll body) (unplacedAll otherwise)
  | .forEach _ targets iterated body otherwise =>
    .forEach .first targets (unplaced iterated) (unplacedAll body) (unplacedAll otherwise)
  | .assign _ targets value => .assign .first targets (unplaced value)
  | .block _ name body => .block .first name (unplacedAll body)
  | .macroDef _ name params body => .macroDef .first name (unplacedParams params) (unplacedAll body)
  | .callerBody _ params body => .callerBody .first (unplacedParams params) (unplacedAll body)
  | .capture _ body => .capture .first (unplacedAll body)
  | .inclusion _ form template => .inclusion .first form (unplaced template)
  | .extensionCall _ site method args kwargs bodies isAsync =>
    .extensionCall .first site method (unplacedAll args) (unplacedKeywords kwargs)
      (unplacedBodies bodies) isAsync
  | .literal _ value => .literal .first value
  | .symbol _ name => .symbol .first name
  | .group _ inner => .group .first (unplaced inner)
  | .array _ items => .array .first (unplacedAll items)
  | .dict _ entries => .dict .first (unplacedEntries entries)
  | .lookup _ target key => .lookup .first (unplaced target) (unplaced key)
  | .call _ callee args kwargs =>
    .call .first (unplaced callee) (unplacedAll args) (unplacedKeywords kwargs)
  | .filter _ name target args kwargs =>
    .filter .first name (unplaced target) (unplacedAll args) (unplacedKeywords kwargs)
  | .test _ target name args negated =>
    .test .first (unplaced target) name (unplacedAll args) negated
  | .unary _ op operand => .unary .first op (unplaced operand)
  | .binary _ op left right => .binary .first op (unplaced left) (unplaced right)
  | .compare _ first rest => .compare .first (unplaced first) (unplacedCompared rest)
  | .inlineIf _ cond body otherwise =>
    .inlineIf .first (unplaced cond) (unplaced body) (unplacedOption otherwise)

/-- Nodes without their places. -/
def unplacedAll : List Node → List Node
  | [] => []
  | node :: nodes => unplaced node :: unplacedAll nodes

/-- An optional node without its place. -/
def unplacedOption : Option Node → Option Node
  | none => none
  | some node => some (unplaced node)

/-- Parameters without the places of their defaults. -/
def unplacedParams : List (String × Option Node) → List (String × Option Node)
  | [] => []
  | (name, default) :: params => (name, unplacedOption default) :: unplacedParams params

/-- Keyword arguments without their places. -/
def unplacedKeywords : List (String × Node) → List (String × Node)
  | [] => []
  | (name, value) :: kwargs => (name, unplaced value) :: unplacedKeywords kwargs

/-- Bodies without the places of their nodes. -/
def unplacedBodies : List (List Node) → List (List Node)
  | [] => []
  | body :: bodies => unplacedAll body :: unplacedBodies bodies

/-- Entries without their places. -/
def unplacedEntries : List (Node × Node) → List (Node × Node)
  | [] => []
  | (key, value) :: entries => (unplaced key, unplaced value) :: unplacedEntries entries

/-- Compared operands without their places. -/
def unplacedCompared : List (CompareOp × Node) → List (CompareOp × Node)
  | [] => []
  | (op, operand) :: rest => (op, unplaced operand) :: unplacedCompared rest

end

/-- The nodes are the same, but for the places where they stand. -/
def Alike (node node' : Node) : Prop :=
  node'.unplaced = node.unplaced

theorem Alike.eq {node node' : Node} (h : node.Alike node') : node'.unplaced = node.unplaced := h

/-- The node is a bare symbol. -/
def isSymbol : Node → Bool
  | symbol _ _ => true
  | _ => false

theorem isSymbol_unplaced (node : Node) : node.unplaced.isSymbol = node.isSymbol := by
  cases node <;> simp only [unplaced, isSymbol]

theorem Alike.isSymbol {node node' : Node} (h : node.Alike node') : node'.isSymbol = node.isSymbol := by
  rw [← isSymbol_unplaced, h, isSymbol_unplaced]

section

variable {tagOf : Node → String}

theorem spellings_eq_map (nodes : List Node) : spellings tagOf nodes = nodes.map (words tagOf) := by
  induction nodes with
  | nil => rfl
  | cons node nodes ih => rw [spellings, ih, List.map_cons]

theorem entrySpellings_eq_map (entries : List (Node × Node)) :
    entrySpellings tagOf entries =
      entries.map fun entry => words tagOf entry.1 ++ .colon :: words tagOf entry.2 := by
  induction entries with
  | nil => rfl
  | cons entry entries ih => rw [entrySpellings, ih, List.map_cons]

theorem comparedSpellings_eq_map (rest : List (CompareOp × Node)) :
    comparedSpellings tagOf rest = rest.map fun entry => entry.1.word :: words tagOf entry.2 := by
  induction rest with
  | nil => rfl
  | cons entry rest ih => rw [comparedSpellings, ih, List.map_cons]

theorem paramSpellings_eq_map (params : List (String × Option Node)) :
    paramSpellings tagOf params = params.map fun param => .symbol param.1 ::
      param.2.elim [] fun default => .assigns :: words tagOf default := by
  induction params with
  | nil => rfl
  | cons param params ih =>
    obtain ⟨name, default⟩ := param
    cases default <;> rw [paramSpellings, ih, List.map_cons] <;> rfl

theorem bodySpellings_eq_map (bodies : List (List Node)) :
    bodySpellings tagOf bodies = bodies.map fun body => (body.map (words tagOf)).flatten := by
  induction bodies with
  | nil => rfl
  | cons body bodies ih => rw [bodySpellings, ih, List.map_cons, spellings_eq_map]

theorem unplacedAll_eq_map (nodes : List Node) : unplacedAll nodes = nodes.map unplaced := by
  induction nodes with
  | nil => rfl
  | cons node nodes ih => rw [unplacedAll, ih, List.map_cons]

theorem unplacedOption_eq_map (node : Option Node) : unplacedOption node = node.map unplaced := by
  cases node <;> rfl

theorem unplacedParams_eq_map (params : List (String × Option Node)) :
    unplacedParams params = params.map fun param => (param.1, param.2.map unplaced) := by
  induction params with
  | nil => rfl
  | cons param params ih => rw [unplacedParams, ih, List.map_cons, unplacedOption_eq_map]

theorem unplacedKeywords_eq_map (kwargs : List (String × Node)) :
    unplacedKeywords kwargs = kwargs.map fun entry => (entry.1, entry.2.unplaced) := by
  induction kwargs with
  | nil => rfl
  | cons entry kwargs ih => rw [unplacedKeywords, ih, List.map_cons]

theorem unplacedEntries_eq_map (entries : List (Node × Node)) :
    unplacedEntries entries = entries.map fun entry => (entry.1.unplaced, entry.2.unplaced) := by
  induction entries with
  | nil => rfl
  | cons entry entries ih => rw [unplacedEntries, ih, List.map_cons]

theorem unplacedCompared_eq_map (rest : List (CompareOp × Node)) :
    unplacedCompared rest = rest.map fun entry => (entry.1, entry.2.unplaced) := by
  induction rest with
  | nil => rfl
  | cons entry rest ih => rw [unplacedCompared, ih, List.map_cons]

end

end Node

/-- The names that the grammar takes for something else where an expression may stand. -/
def keywords : List String :=
  ["true", "True", "false", "False", "none", "None", "null", "not"]

/-- The literal has a word of its own. -/
inductive Literal.IsSpelled : Literal → Prop where
  | str (value : String) : IsSpelled (.str value)
  | int {value : Int} (hnonneg : 0 ≤ value) (hlt : value < 0x8000000000000000) : IsSpelled (.int value)
  | bool (value : Bool) : IsSpelled (.bool value)
  | none : IsSpelled .none

namespace Node

/-- The node is an expression whose operands bind as tightly as the grammar asks for. -/
inductive IsTerm : Node → Prop where
  | literal {pos : Position} {value : Literal} (h : value.IsSpelled) : IsTerm (.literal pos value)
  | symbol {pos : Position} {name : String} (h : name ∉ keywords) : IsTerm (.symbol pos name)
  | group {pos : Position} {inner : Node} (h : IsTerm inner) : IsTerm (.group pos inner)
  | array {pos : Position} {items : List Node} (h : ∀ node ∈ items, IsTerm node) :
      IsTerm (.array pos items)
  | dict {pos : Position} {entries : List (Node × Node)} (hkeys : ∀ entry ∈ entries, IsTerm entry.1)
      (hprimary : ∀ entry ∈ entries, 13 ≤ entry.1.level ∧ entry.1.isSymbol = false)
      (hvalues : ∀ entry ∈ entries, IsTerm entry.2) : IsTerm (.dict pos entries)
  | lookup {pos : Position} {target key : Node} (htarget : IsTerm target)
      (hlevel : 13 ≤ target.level) (hkey : IsTerm key) : IsTerm (.lookup pos target key)
  | call {pos : Position} {callee : Node} {args : List Node} {kwargs : List (String × Node)}
      (hcallee : IsTerm callee) (hlevel : 13 ≤ callee.level) (hargs : ∀ node ∈ args, IsTerm node)
      (hkwargs : ∀ entry ∈ kwargs, IsTerm entry.2) : IsTerm (.call pos callee args kwargs)
  | filter {pos : Position} {name : String} {target : Node} {args : List Node}
      {kwargs : List (String × Node)} (htarget : IsTerm target) (hlevel : 12 ≤ target.level)
      (hargs : ∀ node ∈ args, IsTerm node) (hkwargs : ∀ entry ∈ kwargs, IsTerm entry.2) :
      IsTerm (.filter pos name target args kwargs)
  | test {pos : Position} {target : Node} {name : String} {args : List Node} {negated : Bool}
      (htarget : IsTerm target) (hlevel : 6 ≤ target.level) (hname : name ≠ "not")
      (hargs : ∀ node ∈ args, IsTerm node) : IsTerm (.test pos target name args negated)
  | unary {pos : Position} {op : UnaryOp} {operand : Node} (h : IsTerm operand)
      (hlevel : op.level ≤ operand.level) : IsTerm (.unary pos op operand)
  | binary {pos : Position} {op : BinaryOp} {left right : Node} (hleft : IsTerm left)
      (hleftLevel : op.level ≤ left.level) (hright : IsTerm right)
      (hrightLevel : op.level < right.level) : IsTerm (.binary pos op left right)
  | compare {pos : Position} {first : Node} {rest : List (CompareOp × Node)}
      (hfirst : IsTerm first) (hlevel : 7 ≤ first.level) (hne : rest ≠ [])
      (hrest : ∀ entry ∈ rest, IsTerm entry.2) (hlevels : ∀ entry ∈ rest, 7 ≤ entry.2.level) :
      IsTerm (.compare pos first rest)
  | inlineIf {pos : Position} {cond body : Node} {otherwise : Option Node} (hcond : IsTerm cond)
      (hcondLevel : 1 ≤ cond.level) (hbody : IsTerm body) (hbodyLevel : 1 ≤ body.level)
      (hotherwise : ∀ node ∈ otherwise, IsTerm node)
      (hotherwiseLevel : ∀ node ∈ otherwise, 1 ≤ node.level) :
      IsTerm (.inlineIf pos cond body otherwise)

end Node

/-- The names of the tags that end the bodies of the built-in statements. -/
def closingTags : List String :=
  ["elif", "elseif", "else", "endif", "endfor", "endset", "endblock", "endmacro", "endcall",
   "endfilter"]

/-- A tag of the name ends the body of a statement or of an extension's tag. -/
def Environment.Closes (env : Environment) (name : String) : Prop :=
  name ∈ closingTags ∨ ∃ tag e identity isAsync, env.tagOwner? tag = some e ∧
    e.form = .standard true identity isAsync ∧ name = "end" ++ tag

/-- The names of the built-in tags. -/
def builtinTags : List String :=
  ["if", "ifAsync", "for", "asyncEach", "asyncAll", "set", "block", "macro", "call", "filter",
   "extends", "include", "import", "from"]

/-- The tag calls an extension, with bodies if it asks for them. -/
structure Environment.Calls (env : Environment) (tag : String) (site : Site)
    (bodies : List (List Node)) (isAsync : Bool) : Prop where
  owner : ∃ e hasBody identity, env.tagOwner? tag = some e ∧
    e.form = .standard hasBody identity isAsync ∧ site = Statement.ownSite e identity ∧
      bodies.length = if hasBody then 1 else 0
  builtin : tag ∉ builtinTags
  closes : ¬ env.Closes tag

namespace Node

section

variable (env : Environment) (tagOf : Node → String)

/-- The node is a statement of the built-in language, or it calls an extension by one of its
    tags. -/
inductive IsClause : Node → Prop where
  | data {pos : Position} {text : String} : IsClause (.data pos text)
  | output {pos : Position} {value : Node} (h : value.IsTerm) : IsClause (.output pos [value])
  | callBlock {pos pos' pos'' : Position} {callee : Node} {args : List Node}
      {kwargs : List (String × Node)} {params : List (String × Option Node)} {body : List Node}
      (hcall : (Node.call pos' callee args kwargs).IsTerm)
      (hparams : ∀ param ∈ params, ∀ node ∈ param.2, node.IsTerm)
      (hbody : ∀ node ∈ body, IsClause node) :
      IsClause (.output pos
        [.call pos' callee args (kwargs ++ [("caller", .callerBody pos'' params body)])])
  | filterBlock {pos pos' pos'' : Position} {name : String} {args : List Node}
      {kwargs : List (String × Node)} {body : List Node} (hargs : ∀ node ∈ args, node.IsTerm)
      (hkwargs : ∀ entry ∈ kwargs, entry.2.IsTerm) (hbody : ∀ node ∈ body, IsClause node) :
      IsClause (.output pos [.filter pos' name (.capture pos'' body) args kwargs])
  | ifElse {pos : Position} {cond : Node} {body otherwise : List Node} (hcond : cond.IsTerm)
      (hbody : ∀ node ∈ body, IsClause node) (hotherwise : ∀ node ∈ otherwise, IsClause node) :
      IsClause (.ifElse pos cond body otherwise)
  | forEach {pos : Position} {targets : List String} {iterated : Node} {body otherwise : List Node}
      (htargets : targets ≠ []) (hiterated : iterated.IsTerm)
      (hbody : ∀ node ∈ body, IsClause node) (hotherwise : ∀ node ∈ otherwise, IsClause node) :
      IsClause (.forEach pos targets iterated body otherwise)
  | assign {pos : Position} {targets : List String} {value : Node} (htargets : targets ≠ [])
      (hvalue : value.IsTerm) : IsClause (.assign pos targets value)
  | captureBlock {pos pos' : Position} {targets : List String} {body : List Node}
      (htargets : targets ≠ []) (hbody : ∀ node ∈ body, IsClause node) :
      IsClause (.assign pos targets (.capture pos' body))
  | block {pos : Position} {name : String} {body : List Node} (hbody : ∀ node ∈ body, IsClause node) :
      IsClause (.block pos name body)
  | macroDef {pos : Position} {name : String} {params : List (String × Option Node)}
      {body : List Node} (hparams : ∀ param ∈ params, ∀ node ∈ param.2, node.IsTerm)
      (hbody : ∀ node ∈ body, IsClause node) : IsClause (.macroDef pos name params body)
  | inclusion {pos : Position} {form : Inclusion} {template : Node} (htemplate : template.IsTerm)
      (hnames : ∀ names withContext, form = .members names withContext →
        ∀ entry ∈ names, entry.1 ∉ ["with", "without"]) : IsClause (.inclusion pos form template)
  | extensionCall {pos : Position} {site : Site} {args : List Node} {kwargs : List (String × Node)}
      {bodies : List (List Node)} {isAsync : Bool}
      (htag : env.Calls (tagOf (.extensionCall pos site "run" args kwargs bodies isAsync)) site
        bodies isAsync)
      (hargs : ∀ node ∈ args, node.IsTerm) (hkwargs : ∀ entry ∈ kwargs, entry.2.IsTerm)
      (hbodies : ∀ body ∈ bodies, ∀ node ∈ body, IsClause node) :
      IsClause (.extensionCall pos site "run" args kwargs bodies isAsync)

end

end Node

end TemplateManifest
