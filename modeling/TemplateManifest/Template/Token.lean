import TemplateManifest.Text.Position

/-!
Tokens of a template: runs of text, the marks around tags, and the words inside tags.
-/

namespace TemplateManifest

/-- The kind of a token. -/
inductive TokenKind where
  | data
  | raw
  | blockStart
  | blockEnd
  | variableStart
  | variableEnd
  | string
  | int
  | float
  | symbol
  | operator
  | leftParen
  | rightParen
  | leftBracket
  | rightBracket
  | leftCurly
  | rightCurly
  | comma
  | colon
  | pipe
  | eof
deriving DecidableEq, Repr, Inhabited

/-- A token: its kind, its text (decoded, for a string) and where it starts. -/
structure Token where
  kind : TokenKind
  value : String
  pos : Position
deriving DecidableEq, Repr, Inhabited

namespace Token

/-- The end-of-source token at a position. -/
def eofAt (pos : Position) : Token := ⟨.eof, "", pos⟩

/-- The token is the symbol `name`. -/
def isSymbol (token : Token) (name : String) : Bool :=
  token.kind = .symbol && token.value = name

/-- The token is the operator `op`. -/
def isOperator (token : Token) (op : String) : Bool :=
  token.kind = .operator && token.value = op

/-- The token as error messages name it. -/
def describe (token : Token) : String :=
  match token.kind with
  | .eof => "end of file"
  | .blockEnd | .variableEnd => "end of tag '" ++ token.value ++ "'"
  | .string => "string \"" ++ token.value ++ "\""
  | _ => "'" ++ token.value ++ "'"

end Token

end TemplateManifest
