import TemplateManifest.Template.SyntaxError

/-!
Streams of tokens and the steps of a parser. A stream ends with an end-of-source token, which
can be looked at any number of times but is never passed.
-/

namespace TemplateManifest

/-- The tokens still to be read, and the end-of-source token after them. -/
structure TokenStream where
  pending : List Token
  last : Token
deriving Repr, Inhabited

namespace TokenStream

/-- The stream of a list of tokens. It ends at the first end-of-source token; a list without
    one ends where its last token stands. -/
def ofTokens (tokens : List Token) : TokenStream where
  pending := tokens.takeWhile fun token => token.kind ≠ .eof
  last :=
    (tokens.find? fun token => token.kind = .eof).getD
      (Token.eofAt ((tokens.getLast?.map Token.pos).getD Position.first))

/-- The current token. -/
def head (s : TokenStream) : Token :=
  s.pending.headD s.last

/-- The token after the current one. -/
def second (s : TokenStream) : Token :=
  s.pending.tail.headD s.last

/-- The stream after the current token; the end of the source stays. -/
def tail (s : TokenStream) : TokenStream :=
  { s with pending := s.pending.tail }

end TokenStream

/-- A parser reads from a stream. It gives a value or a syntax error, and in both cases the
    stream that it leaves. -/
abbrev Parser := EStateM SyntaxError TokenStream

namespace Parser

/-- The current token. -/
def peek : Parser Token := fun s => .ok s.head s

/-- The token after the current one. -/
def peekSecond : Parser Token := fun s => .ok s.second s

/-- Takes the current token. -/
def next : Parser Token := fun s => .ok s.head s.tail

/-- Fails at a token. -/
def failAt {α : Type} (fault : SyntaxFault) (token : Token) : Parser α :=
  fun s => .error ⟨fault, token.pos⟩ s

/-- Fails at the current token. -/
def fail {α : Type} (fault : SyntaxFault) : Parser α :=
  fun s => .error ⟨fault, s.head.pos⟩ s

/-- Takes the current token if the condition holds of it, and tells whether it did. -/
def skipIf (condition : Token → Bool) : Parser Bool := fun s =>
  if condition s.head then .ok true s.tail else .ok false s

/-- Takes the current token if it is of a kind. -/
def skipKind (kind : TokenKind) : Parser Bool :=
  skipIf fun token => token.kind = kind

/-- Takes the current token if it is the symbol `name`. -/
def skipSymbol (name : String) : Parser Bool :=
  skipIf fun token => token.isSymbol name

/-- Takes the current token if it is the operator `op`. -/
def skipOperator (op : String) : Parser Bool :=
  skipIf fun token => token.isOperator op

/-- Takes a token of a kind, which error messages call `what`. -/
def expect (kind : TokenKind) (what : String) : Parser Token := fun s =>
  if s.head.kind = kind then .ok s.head s.tail
  else .error ⟨.expected what s.head, s.head.pos⟩ s

/-- Takes a symbol, which error messages call `what`. -/
def expectSymbol (what : String) : Parser String := do
  let token ← expect .symbol what
  return token.value

/-- Takes the symbol `keyword`. -/
def expectKeyword (keyword : String) : Parser Unit := do
  unless ← skipSymbol keyword do
    fail (.expected ("'" ++ keyword ++ "'") (← peek))

/-- Takes the end of a tag, before which the tag's name may be repeated. -/
def closeTag (name : String) : Parser Unit := do
  let _ ← skipSymbol name
  let _ ← expect .blockEnd ("end of block in '" ++ name ++ "' tag")

/-- What a step of a repetition decides: to go on from a state, or to stop with a result. -/
inductive Step (σ α : Type) where
  | more (state : σ)
  | done (result : α)

/-- Repeats a step until it stops. The first argument bounds the number of repetitions. -/
def iterateFrom {σ α : Type} (step : σ → Parser (Step σ α)) : Nat → σ → Parser α
  | 0, _ => fail .tooDeep
  | bound + 1, state => do
    match ← step state with
    | .more state => iterateFrom step bound state
    | .done result => return result

/-- Repeats a step until it stops. The step must take a token whenever it goes on, so there are
    never more repetitions than tokens. -/
def iterate {σ α : Type} (step : σ → Parser (Step σ α)) (state : σ) : Parser α := fun s =>
  iterateFrom step (s.pending.length + 1) state s

/-- Reads items between commas up to a closing mark, before which one more comma may stand. An
    item is added to the items before it; `isFirst` tells that there are none, so that no comma
    stands before the item. -/
def commaSeparated {σ : Type} (close : TokenKind) (what : String) (isFirst : σ → Bool)
    (item : σ → Parser σ) : σ → Parser σ :=
  iterate fun items => do
    if ← skipKind close then return .done items
    unless isFirst items do
      let _ ← expect .comma what
      if ← skipKind close then return .done items
    return .more (← item items)

/-- Reads the names of a list: one, and one more after each comma. -/
def names (what : String) : Parser (List String) := do
  let first ← expectSymbol what
  iterate (fun names => do
    if ← skipKind .comma then return .more (names ++ [← expectSymbol what])
    return .done names) [first]

end Parser

end TemplateManifest
