import TemplateManifest.Template.SyntaxError
import TemplateManifest.Text.Alphabetic
import TemplateManifest.Text.Numeric
import TemplateManifest.Text.Search
import TemplateManifest.Text.WhiteSpace

/-!
The words inside a tag. Each step reads one token from the head of the text and tells how many
characters it takes, so what is left is always the text less that many characters.
-/

namespace TemplateManifest

open Text

/-- A place in a source together with what is left of the source from there. -/
structure Cursor where
  rest : List Char
  pos : Position
deriving Repr, Inhabited

/-- The cursor `count` characters further on. -/
def Cursor.skip (cursor : Cursor) (count : Nat) : Cursor :=
  ⟨cursor.rest.drop count, cursor.pos.after (cursor.rest.take count)⟩

namespace Code

/-- The operators, each before the shorter ones it starts with. -/
def operators : List String :=
  ["===", "!==", "==", "!=", "<=", ">=", "//", "**", "+", "-", "*", "/", "%", "<", ">", "=", "!",
   "~", "."]

/-- The character can start a name. -/
def startsName (c : Char) : Bool :=
  isAlphabetic c || c = '_' || c = '$'

/-- The character can continue a name. -/
def continuesName (c : Char) : Bool :=
  isAlphabetic c || isNumeric c || c = '_' || c = '$'

/-- What an escaped character of a string literal stands for. -/
def unescape (c : Char) : Char :=
  match c with
  | 'n' => '\n'
  | 't' => '\t'
  | 'r' => '\r'
  | c => c

/-- The value of a string literal after its opening quote, and the number of characters up to
    and with the closing one; none when the text ends first. -/
def stringBody? (quote : Char) : List Char → Option (List Char × Nat)
  | [] => none
  | c :: text =>
    if c = '\\' then
      match text with
      | [] => none
      | escaped :: text =>
        (stringBody? quote text).map fun (value, count) => (unescape escaped :: value, count + 2)
    else if c = quote then some ([], 1)
    else (stringBody? quote text).map fun (value, count) => (c :: value, count + 1)

/-- A number at the head of a text: digits, or digits, a point and digits. -/
def number (text : List Char) : TokenKind × List Char :=
  let whole := text.takeWhile Char.isDigit
  match text.drop whole.length with
  | '.' :: c :: rest =>
    if c.isDigit then (.float, whole ++ '.' :: (c :: rest).takeWhile Char.isDigit)
    else (.int, whole)
  | _ => (.int, whole)

/-- The kind of a token that is a single mark. -/
def markKind? (c : Char) : Option TokenKind :=
  match c with
  | '(' => some .leftParen
  | ')' => some .rightParen
  | '[' => some .leftBracket
  | ']' => some .rightBracket
  | '{' => some .leftCurly
  | '}' => some .rightCurly
  | ',' => some .comma
  | ':' => some .colon
  | '|' => some .pipe
  | _ => none

/-- The token at the head of the text `c :: text`: its kind, its value, and the number of
    characters that it takes. -/
def token (c : Char) (text : List Char) : Except SyntaxFault (TokenKind × String × Nat) :=
  if c = '"' ∨ c = '\'' then
    match stringBody? c text with
    | some (value, count) => .ok (.string, String.ofList value, count + 1)
    | none => .error .unterminatedString
  else if c.isDigit then
    let (kind, digits) := number (c :: text)
    .ok (kind, String.ofList digits, digits.length)
  else if startsName c then
    let name := (c :: text).takeWhile continuesName
    .ok (.symbol, String.ofList name, name.length)
  else
    match markKind? c with
    | some kind => .ok (kind, c.toString, 1)
    | none =>
      match operators.find? fun op => startsWith op.toList (c :: text) with
      | some op => .ok (.operator, op, op.length)
      | none => .error (.unexpectedCharacter c)

/-- The number of open braces after one more token. -/
def braceDepth (depth : Nat) : TokenKind → Nat
  | .leftCurly => depth + 1
  | .rightCurly => depth - 1
  | _ => depth

/-- The kind of the token that closes a tag. -/
def closingKind : TagKind → TokenKind
  | .block => .blockEnd
  | _ => .variableEnd

/-- The closing mark at the head of a text: whether a `-` stands before it, and the number of
    characters of both. -/
def closingMark? (closer text : List Char) : Option (Bool × Nat) :=
  if startsWith ('-' :: closer) text then some (true, closer.length + 1)
  else if startsWith closer text then some (false, closer.length)
  else none

/-- The code of a tag up to its closing mark, as read from inside the tag. -/
structure Reading where
  /-- The code tokens, the closing one last. -/
  tokens : List Token
  /-- A `-` stands before the closing mark. -/
  stripsAfter : Bool
  /-- Where the tag ends. -/
  finish : Cursor

/-- Reads the code of a tag that opened at `opened`. The closing mark counts only outside
    braces; the first argument bounds the number of tokens. -/
def readFrom (closer : List Char) (kind : TagKind) (opened : Position) :
    Nat → Nat → Cursor → Except SyntaxError Reading
  | 0, _, cursor => .error ⟨.emptyTag, cursor.pos⟩
  | bound + 1, depth, cursor =>
    let cursor := cursor.skip (cursor.rest.takeWhile isWhiteSpace).length
    match cursor.rest with
    | [] => .error ⟨.unclosedTag kind, opened⟩
    | c :: text =>
      match if depth = 0 then closingMark? closer cursor.rest else none with
      | some (stripped, count) =>
        .ok ⟨[⟨closingKind kind, String.ofList closer, cursor.pos⟩], stripped, cursor.skip count⟩
      | none =>
        match token c text with
        | .error fault => .error ⟨fault, cursor.pos⟩
        | .ok (tokenKind, value, count) =>
          match readFrom closer kind opened bound (braceDepth depth tokenKind)
              (cursor.skip count) with
          | .error e => .error e
          | .ok reading =>
            .ok { reading with tokens := ⟨tokenKind, value, cursor.pos⟩ :: reading.tokens }

/-- Reads the code of a tag that opened at `opened`. -/
def read (closer : List Char) (kind : TagKind) (opened : Position) (cursor : Cursor) :
    Except SyntaxError Reading :=
  readFrom closer kind opened (cursor.rest.length + 1) 0 cursor

end Code

end TemplateManifest
