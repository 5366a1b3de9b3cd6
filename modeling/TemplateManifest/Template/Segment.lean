import TemplateManifest.Template.Code

/-!
A source split into runs of text and the constructs between them: comments, raw blocks and
tags. Every construct keeps the characters it covers, and a text run all of its own, so the
segments read one after the other are the source.
-/

namespace TemplateManifest

open Text

/-- A comment, a raw block or a tag. -/
structure Construct where
  /-- The kind of the opening mark; a raw block opens as a block tag does. -/
  kind : TagKind
  start : Position
  /-- The characters of the construct, its opening and closing marks included. -/
  lexeme : List Char
  /-- The line break after the construct that is dropped with it. -/
  lineBreak : List Char
  /-- The tokens it stands for: none for a comment, one for a raw block. -/
  tokens : List Token
  /-- A `-` follows the opening mark. -/
  stripsBefore : Bool
  /-- A `-` stands before the closing mark. -/
  stripsAfter : Bool

/-- A piece of a source. -/
inductive Segment where
  | text (start : Position) (chars : List Char)
  | construct (c : Construct)

namespace Segment

/-- The characters of the source that a segment covers. -/
def source : Segment → List Char
  | .text _ chars => chars
  | .construct c => c.lexeme ++ c.lineBreak

/-- The kind of tag that opens at the head of the text: of several opening marks the longest. -/
def openerAt? (d : Delimiters) (text : List Char) : Option TagKind :=
  [TagKind.block, .variable, .comment].foldl
    (fun best kind =>
      let opener := (d.opener kind).toList
      if startsWith opener text && best.all fun b => (d.opener b).length < opener.length then
        some kind
      else best)
    none

/-- The number of characters before the next opening mark. -/
def textLength (d : Delimiters) : List Char → Nat
  | [] => 0
  | c :: rest =>
    match openerAt? d (c :: rest) with
    | some _ => 0
    | none => textLength d rest + 1

/-- The line break at the head of a text, if there is one. -/
def leadingLineBreak : List Char → List Char
  | '\r' :: '\n' :: _ => ['\r', '\n']
  | '\n' :: _ => ['\n']
  | _ => []

/-- The number of characters of an optional `-`. -/
def dashLength : List Char → Nat
  | '-' :: _ => 1
  | _ => 0

/-- The word that opens a raw block. -/
def rawWords : List String := ["raw", "verbatim"]

/-- The opening tag of a raw block after its opening mark: the word, whether a `-` stands
    before the closing mark, and the number of characters. -/
def rawOpening? (closer text : List Char) : Option (String × Bool × Nat) :=
  let before := (text.takeWhile isWhiteSpace).length
  let named := text.drop before
  let word := named.takeWhile fun c => c.isAlphanum || c = '_'
  if (String.ofList word) ∈ rawWords then
    let tail := named.drop word.length
    let between := (tail.takeWhile isWhiteSpace).length
    (Code.closingMark? closer (tail.drop between)).map fun (stripped, count) =>
      (String.ofList word, stripped, before + word.length + between + count)
  else none

/-- The end of a closing tag: white space, an optional `-` and the closing mark. White space
    gives way to a closing mark that starts with some of it. The result tells whether the `-`
    is there, and the number of characters. -/
def rawTail? (closer : List Char) (white : Nat) (text : List Char) : Option (Bool × Nat) :=
  match Code.closingMark? closer (text.drop white) with
  | some (stripped, count) => some (stripped, white + count)
  | none =>
    match white with
    | 0 => none
    | white + 1 => rawTail? closer white text

/-- The closing tag of a raw block at the head of a text: whether a `-` follows its opening
    mark, whether one stands before its closing mark, and the number of characters. -/
def rawClosing? (opener closer : List Char) (word : String) (text : List Char) :
    Option (Bool × Bool × Nat) :=
  match after? opener text with
  | none => none
  | some rest =>
    let dash := dashLength rest
    let between := ((rest.drop dash).takeWhile isWhiteSpace).length
    let named := (rest.drop dash).drop between
    let name := "end".toList ++ word.toList
    match after? name named with
    | none => none
    | some tail =>
      (rawTail? closer (tail.takeWhile isWhiteSpace).length tail).map fun (stripped, count) =>
        (dash = 1, stripped, opener.length + dash + between + name.length + count)

/-- The characters of a raw block's body, and its closing tag. -/
def rawBody? (opener closer : List Char) (word : String) :
    List Char → Option (List Char × Bool × Bool × Nat)
  | [] => (rawClosing? opener closer word []).map fun closing => ([], closing)
  | c :: rest =>
    match rawClosing? opener closer word (c :: rest) with
    | some closing => some ([], closing)
    | none => (rawBody? opener closer word rest).map fun (body, closing) => (c :: body, closing)

/-- Closes a construct that takes `count` characters: its line break goes with it when block
    tags are trimmed, unless it is a variable tag. -/
def finish (options : LanguageOptions) (kind : TagKind) (start : Cursor) (count : Nat)
    (tokens : List Token) (stripsBefore stripsAfter : Bool) : Construct × Cursor :=
  let next := start.skip count
  let lineBreak :=
    if options.trimBlocks && kind ≠ .variable then leadingLineBreak next.rest else []
  (⟨kind, start.pos, start.rest.take count, lineBreak, tokens, stripsBefore, stripsAfter⟩,
    next.skip lineBreak.length)

/-- Reads a comment. -/
def readComment (options : LanguageOptions) (cursor : Cursor) :
    Except SyntaxError (Construct × Cursor) :=
  let opener := options.delimiters.commentStart.toList
  let closer := options.delimiters.commentEnd.toList
  let inside := cursor.rest.drop opener.length
  match breakOn closer inside with
  | none => .error ⟨.unclosedComment, cursor.pos⟩
  | some (body, _) =>
    .ok (finish options .comment cursor (opener.length + body.length + closer.length) []
      (dashLength inside = 1) (body.getLast? = some '-'))

/-- Reads a raw block, if one starts here: its body is kept as it stands, but for the white
    space that a `-` in its own tags removes. -/
def readRaw? (options : LanguageOptions) (cursor : Cursor) :
    Option (Except SyntaxError (Construct × Cursor)) :=
  let opener := options.delimiters.blockStart.toList
  let closer := options.delimiters.blockEnd.toList
  let inside := cursor.rest.drop opener.length
  let dash := dashLength inside
  (rawOpening? closer (inside.drop dash)).map fun (word, stripsStart, opening) =>
    let length := opener.length + dash + opening
    match rawBody? opener closer word (cursor.rest.drop length) with
    | none => .error ⟨.unclosedRaw word, cursor.pos⟩
    | some (body, stripsEnd, stripsAfter, closing) =>
      let kept := if stripsStart then trimStart body else body
      let kept := if stripsEnd then trimEnd kept else kept
      .ok (finish options .block cursor (length + body.length + closing)
        [⟨.raw, String.ofList kept, cursor.pos⟩] (dash = 1) stripsAfter)

/-- The kind of the token that opens a tag. -/
def openingKind : TagKind → TokenKind
  | .block => .blockStart
  | _ => .variableStart

/-- Reads a block or variable tag. -/
def readTag (options : LanguageOptions) (kind : TagKind) (cursor : Cursor) :
    Except SyntaxError (Construct × Cursor) :=
  let opener := options.delimiters.opener kind
  let closer := (options.delimiters.closer kind).toList
  let dash := dashLength (cursor.rest.drop opener.length)
  match Code.read closer kind cursor.pos (cursor.skip (opener.length + dash)) with
  | .error e => .error e
  | .ok reading =>
    .ok (finish options kind cursor (cursor.rest.length - reading.finish.rest.length)
      (⟨openingKind kind, opener, cursor.pos⟩ :: reading.tokens) (dash = 1) reading.stripsAfter)

/-- Reads the construct that opens at the cursor. -/
def readConstruct (options : LanguageOptions) (kind : TagKind) (cursor : Cursor) :
    Except SyntaxError (Construct × Cursor) :=
  match kind with
  | .comment => readComment options cursor
  | .variable => readTag options .variable cursor
  | .block => (readRaw? options cursor).getD (readTag options .block cursor)

/-- Splits what is left of a source into segments, and tells where it ends. The first argument
    bounds the number of constructs. -/
def splitFrom (options : LanguageOptions) :
    Nat → Cursor → Except SyntaxError (List Segment × Position)
  | 0, cursor => .error ⟨.emptyTag, cursor.pos⟩
  | bound + 1, cursor =>
    if cursor.rest.isEmpty then .ok ([], cursor.pos)
    else
      let count := textLength options.delimiters cursor.rest
      let texts := if count = 0 then [] else [text cursor.pos (cursor.rest.take count)]
      let cursor := cursor.skip count
      match openerAt? options.delimiters cursor.rest with
      | none => .ok (texts, cursor.pos)
      | some kind =>
        match readConstruct options kind cursor with
        | .error e => .error e
        | .ok (c, cursor) =>
          match splitFrom options bound cursor with
          | .error e => .error e
          | .ok (segments, finish) => .ok (texts ++ construct c :: segments, finish)

/-- Splits a source into segments, and tells where it ends. -/
def split (options : LanguageOptions) (source : String) :
    Except SyntaxError (List Segment × Position) :=
  splitFrom options (source.length + 1) ⟨source.toList, Position.first⟩

end Segment

end TemplateManifest
