import TemplateManifest.Template.Delimiters
import TemplateManifest.Template.Token

/-!
The ways in which a template's source can violate the grammar.
-/

namespace TemplateManifest

/-- Why a source is not a template. -/
inductive SyntaxFault where
  /-- A comment without its closing mark. -/
  | unclosedComment
  /-- A block or variable tag without its closing mark. -/
  | unclosedTag (kind : TagKind)
  /-- A raw block without its end tag. -/
  | unclosedRaw (word : String)
  | unterminatedString
  | unexpectedCharacter (c : Char)
  /-- A tag that takes no characters, which only empty delimiters allow. -/
  | emptyTag
  /-- Something else stands where the grammar asks for `what`. -/
  | expected (what : String) (found : Token)
  /-- The source ends before one of the awaited closing tags. -/
  | unexpectedEnd (awaited : List String)
  /-- A token that cannot stand between tags. -/
  | misplaced (found : Token)
  /-- A token that cannot start an expression. -/
  | noExpression (found : Token)
  | emptyVariableTag
  | missingTagName
  | unknownTag (name : String)
  | noMacroCall
  | noImportName
  | missingArgumentList
  | positionalAfterKeyword
  | integerOutOfRange (text : String)
  | invalidFloat (text : String)
  /-- A refusal that a custom tag words itself. -/
  | refused (message : String)
  /-- More nesting than there are tokens left, which no source reaches. -/
  | tooDeep
deriving DecidableEq, Repr, Inhabited

/-- The text of a fault. -/
def SyntaxFault.message : SyntaxFault → String
  | .unclosedComment => "expected end of comment, got end of file"
  | .unclosedTag .block => "expected end of block tag, got end of file"
  | .unclosedTag _ => "expected end of variable tag, got end of file"
  | .unclosedRaw word => "expected end" ++ word ++ ", got end of file"
  | .unterminatedString => "unterminated string literal"
  | .unexpectedCharacter c => "unexpected character '" ++ c.toString ++ "'"
  | .emptyTag => "tag delimiters are empty"
  | .expected what found => "expected " ++ what ++ ", got " ++ found.describe
  | .unexpectedEnd awaited =>
    "unexpected end of file, expected " ++ String.intercalate " or " awaited
  | .misplaced found => "unexpected " ++ found.describe
  | .noExpression found => "unexpected token: " ++ found.describe
  | .emptyVariableTag => "expected expression in variable tag"
  | .missingTagName => "tag name expected"
  | .unknownTag name => "unknown block tag: " ++ name
  | .noMacroCall => "expected a macro call in 'call' tag"
  | .noImportName => "expected at least one import name"
  | .missingArgumentList => "expected '(' to open argument list"
  | .positionalAfterKeyword => "positional argument follows keyword argument"
  | .integerOutOfRange text => "integer literal " ++ text ++ " is out of range"
  | .invalidFloat text => "invalid float literal " ++ text
  | .refused message => message
  | .tooDeep => "expression is nested too deeply"

/-- A fault and the place where it was found. -/
structure SyntaxError where
  fault : SyntaxFault
  pos : Position
deriving DecidableEq, Repr, Inhabited

end TemplateManifest
