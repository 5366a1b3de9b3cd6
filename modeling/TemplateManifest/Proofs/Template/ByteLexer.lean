import TemplateManifest.Proofs.Text.Bytes
import TemplateManifest.Template.Lexer

/-!
The tokens of a source, found by moving through it in bytes. Each piece of the source is taken between
two numbers of bytes, and the scan ends at once if these do not mark whole characters of the source, in
order. It also ends at once if an iteration of one of its two loops, over the source and over the code
of a tag, does not move on.
-/

namespace TemplateManifest

open Text

namespace ByteLexer

/-- Why a scan ends without tokens. -/
inductive Halt where
  /-- The source has an error. -/
  | refused (e : SyntaxError)
  /-- There is no slice between these bounds. -/
  | badSlice (lo hi : Nat)
  /-- An iteration that started here has consumed nothing. -/
  | stalled (pos : Nat)
deriving DecidableEq, Repr

/-- The state of a scan. -/
structure State where
  /-- The number of bytes consumed. -/
  pos : Nat := 0
  /-- The line and the column. -/
  place : Position := Position.first
  /-- The last construct closed with a `-`. -/
  stripNext : Bool := false
  tokens : List Token := []

/-- A step of a scan. -/
abbrev Scan := EStateM Halt State

section Slices

/-- The stretch of a text between two numbers of bytes. -/
def slice (text : List Char) (lo hi : Nat) : Scan (List Char) :=
  match slice? text lo hi with
  | some inside => return inside
  | none => throw (.badSlice lo hi)

/-- What is left of a text after some bytes. -/
def sliceFrom (text : List Char) (lo : Nat) : Scan (List Char) :=
  slice text lo (byteLength text)

/-- The number of bytes of the white space that a text starts with. -/
def whiteLength (text : List Char) : Nat :=
  byteLength text - byteLength (trimStart text)

/-- The text starts with a `-` and then with the closing mark. -/
def closesStripped (closer text : List Char) : Scan Bool := do
  if startsWith ['-'] text then
    let next ← sliceFrom text 1
    return startsWith closer next
  else return false

/-- Whether the closing mark that the text starts with has a `-` before it, if there is one. -/
def closing? (closer text : List Char) : Scan (Option Bool) := do
  let stripped ← closesStripped closer text
  return if stripped || startsWith closer text then some stripped else none

/-- Whether the closing mark that the text starts with has a `-` before it, if there is one. It counts
    only outside braces. -/
def outerClosing? (closer : List Char) (depth : Nat) (text : List Char) : Scan (Option Bool) :=
  if depth = 0 then closing? closer text else return none

end Slices

section Steps

/-- Ends the scan with an error of the source. -/
def refuse {α : Type} (fault : SyntaxFault) (place : Position) : Scan α :=
  throw (.refused ⟨fault, place⟩)

def push (token : Token) : Scan Unit :=
  modify fun s => { s with tokens := s.tokens ++ [token] }

def setStripNext (strip : Bool) : Scan Unit :=
  modify fun s => { s with stripNext := strip }

variable (options : LanguageOptions) (source : List Char)

/-- What is left of the source. -/
def rest : Scan (List Char) := do
  let s ← get
  sliceFrom source s.pos

/-- Moves on by some bytes, and keeps the line and the column in step. -/
def bump (count : Nat) : Scan Unit := do
  let s ← get
  let passed ← slice source s.pos (s.pos + count)
  set { s with pos := s.pos + count, place := s.place.after passed }

/-- Moves over the line break that is dropped with a construct. -/
def skipTrimmedNewline : Scan Unit := do
  if options.trimBlocks then
    let text ← rest source
    if startsWith ['\r', '\n'] text then bump source 2
    else if startsWith ['\n'] text then bump source 1
    else return ()
  else return ()

end Steps

section Text

/-- An opening mark found in a text. -/
structure Opening where
  offset : Nat
  length : Nat
  kind : TagKind

/-- The earlier mark is preferred, and of two at one place the longer. -/
def Opening.Precedes (a b : Opening) : Prop :=
  a.offset < b.offset ∨ a.offset = b.offset ∧ b.length < a.length

instance (a b : Opening) : Decidable (a.Precedes b) := inferInstanceAs (Decidable (_ ∨ _))

/-- The first occurrence of each opening mark. -/
def openings (d : Delimiters) (text : List Char) : List Opening :=
  [TagKind.block, .variable, .comment].filterMap fun kind =>
    let opener := (d.opener kind).toList
    (findBytes? opener text).map fun offset => ⟨offset, byteLength opener, kind⟩

/-- The first of the openings that no other one precedes. -/
def preferred? : List Opening → Option Opening
  | [] => none
  | a :: rest =>
    match preferred? rest with
    | none => some a
    | some b => if b.Precedes a then some b else some a

variable (options : LanguageOptions) (source : List Char)

/-- Where the next tag opens, and its kind. -/
def nextTag : Scan (Option (Nat × TagKind)) := do
  let s ← get
  let text ← rest source
  return (preferred? (openings options.delimiters text)).map fun a => (s.pos + a.offset, a.kind)

/-- Where the visible part of a run of text starts, after a construct that may have closed with a
    `-`. -/
def dataStart (stop : Nat) : Scan Nat := do
  let s ← get
  if s.stripNext then
    setStripNext false
    let text ← slice source s.pos stop
    return s.pos + whiteLength text
  else return s.pos

/-- Where the indent at the end of a run of text starts, if it fills the last line and all of that line
    is in the run. Otherwise the end of the run. -/
def indentStart (lo stop : Nat) : Scan Nat := do
  let before ← slice source 0 stop
  let indent ← slice source (lineStart before) stop
  if lo ≤ lineStart before && indent.all fun c => c = ' ' || c = '\t' then return lineStart before
  else return stop

/-- Where the visible part of a run of text ends, before a tag of some kind. -/
def dataStop (lo stop : Nat) : Option TagKind → Scan Nat
  | none => return stop
  | some kind => do
    let inside ← sliceFrom source (stop + byteLength (options.delimiters.opener kind).toList)
    if startsWith ['-'] inside then
      let text ← slice source lo stop
      return lo + byteLength (trimEnd text)
    else if options.lstripBlocks && kind ≠ .variable then indentStart source lo stop
    else return stop

/-- Moves over a run of text and gives its visible part. -/
def takeData (stop : Nat) (tag : Option TagKind) : Scan (List Char) := do
  let s ← get
  let lo ← dataStart source stop
  let hi ← dataStop options source lo stop tag
  let text ← slice source lo hi
  bump source (stop - s.pos)
  return text

/-- Moves over a run of text, whose visible part becomes a token unless it is empty. -/
def lexData (stop : Nat) (tag : Option TagKind) : Scan Unit := do
  let s ← get
  let text ← takeData options source stop tag
  if text.isEmpty then return ()
  else push ⟨.data, String.ofList text, s.place⟩

end Text

section Constructs

variable (options : LanguageOptions) (source : List Char)

/-- Moves over a comment. -/
def lexComment : Scan Unit := do
  let s ← get
  let opener := byteLength options.delimiters.commentStart.toList
  let closer := options.delimiters.commentEnd.toList
  let text ← rest source
  let inside ← sliceFrom text opener
  match findBytes? closer inside with
  | none => refuse .unclosedComment s.place
  | some offset =>
    let body ← slice text opener (opener + offset)
    setStripNext (body.getLast? = some '-')
    bump source (opener + offset + byteLength closer)
    skipTrimmedNewline options source

/-- The opening tag of a raw block after its opening mark: the word, whether a `-` stands before the
    closing mark, and the number of bytes. -/
def rawOpening? (closer after : List Char) : Scan (Option (String × Bool × Nat)) := do
  let named ← sliceFrom after (whiteLength after)
  let word := named.takeWhile fun c => c.isAlphanum || c = '_'
  if String.ofList word ∈ Segment.rawWords then
    let afterWord ← sliceFrom named (byteLength word)
    let tail ← sliceFrom afterWord (whiteLength afterWord)
    let closing ← closing? closer tail
    return closing.map fun stripped => (String.ofList word, stripped,
      whiteLength after + byteLength word + whiteLength afterWord + (if stripped then 1 else 0) +
        byteLength closer)
  else return none

/-- Moves over a raw block whose opening tag takes so many bytes. The closing tag is searched for in
    characters; its bounds in the text of the block are numbers of bytes. -/
def lexRawBody (word : String) (openStrip : Bool) (openLength : Nat) : Scan Unit := do
  let s ← get
  let d := options.delimiters
  let text ← rest source
  let block ← sliceFrom text openLength
  match Segment.rawBody? d.blockStart.toList d.blockEnd.toList word block with
  | none => refuse (.unclosedRaw word) s.place
  | some (before, stripsEnd, stripsAfter, count) =>
    let start := byteLength before
    let stop := start + byteLength ((block.drop before.length).take count)
    let body ← slice block 0 start
    let body := if openStrip then trimStart body else body
    let body := if stripsEnd then trimEnd body else body
    push ⟨.raw, String.ofList body, s.place⟩
    bump source (openLength + stop)
    setStripNext stripsAfter
    skipTrimmedNewline options source

/-- Moves over a raw block that opens here with a mark of so many bytes, if there is one. -/
def lexRaw (openerLength : Nat) : Scan Bool := do
  let text ← rest source
  let after ← sliceFrom text openerLength
  match ← rawOpening? options.delimiters.blockEnd.toList after with
  | none => return false
  | some (word, openStrip, length) =>
    lexRawBody options source word openStrip (openerLength + length)
    return true

/-- Moves over a raw block, which opens as a block tag does. -/
def lexRawOf (kind : TagKind) (openerLength : Nat) : Scan Bool :=
  if kind = .block then lexRaw options source openerLength else return false

end Constructs

section Code

/-- The value of a string literal, and the number of bytes up to and with its closing quote, when
    `offset` bytes have been passed. -/
def stringEnd? (quote : Char) : Nat → List Char → Option (List Char × Nat)
  | _, [] => none
  | offset, c :: text =>
    if c = '\\' then
      match text with
      | [] => none
      | escaped :: text =>
        (stringEnd? quote (offset + c.utf8Size + escaped.utf8Size) text).map fun (value, stop) =>
          (Code.unescape escaped :: value, stop)
    else if c = quote then some ([], offset + c.utf8Size)
    else
      (stringEnd? quote (offset + c.utf8Size) text).map fun (value, stop) => (c :: value, stop)

/-- A number at the head of a text. Its digits are counted, and the counts are taken for bytes. -/
def lexNumber (text : List Char) : Scan (TokenKind × String × Nat) := do
  let whole := (text.takeWhile Char.isDigit).length
  let after ← sliceFrom text whole
  if startsWith ['.'] after then
    let fraction ← sliceFrom after 1
    if fraction.head?.any Char.isDigit then
      let length := whole + 1 + (fraction.takeWhile Char.isDigit).length
      let value ← slice text 0 length
      return (.float, String.ofList value, length)
    else
      let value ← slice text 0 whole
      return (.int, String.ofList value, whole)
  else
    let value ← slice text 0 whole
    return (.int, String.ofList value, whole)

/-- The word at the head of the text `c :: text`: its kind, its value, and its number of bytes. -/
def lexWord (c : Char) (text : List Char) : Scan (TokenKind × String × Nat) := do
  let s ← get
  if c = '"' ∨ c = '\'' then
    match stringEnd? c c.utf8Size text with
    | some (value, length) => return (.string, String.ofList value, length)
    | none => refuse .unterminatedString s.place
  else if c.isDigit then lexNumber (c :: text)
  else if Code.startsName c then
    let length := byteLength ((c :: text).takeWhile Code.continuesName)
    let value ← slice (c :: text) 0 length
    return (.symbol, String.ofList value, length)
  else
    match Code.markKind? c with
    | some kind => return (kind, c.toString, 1)
    | none =>
      match Code.operators.find? fun op => startsWith op.toList (c :: text) with
      | some op => return (.operator, op, byteLength op.toList)
      | none => refuse (.unexpectedCharacter c) s.place

variable (options : LanguageOptions) (source : List Char)

/-- Moves over the word or the closing mark of a tag that the rest of the source starts with. The result
    is the number of open braces after a word, or whether the closing mark has a `-` before it. -/
def codeWord (kind : TagKind) (opened : Position) (depth : Nat) : List Char → Scan (Nat ⊕ Bool)
  | [] => refuse (.unclosedTag kind) opened
  | c :: text => do
    let s ← get
    let closer := (options.delimiters.closer kind).toList
    match ← outerClosing? closer depth (c :: text) with
    | some stripped =>
      push ⟨Code.closingKind kind, String.ofList closer, s.place⟩
      bump source (byteLength closer + if stripped then 1 else 0)
      return .inr stripped
    | none =>
      let (tokenKind, value, length) ← lexWord c text
      push ⟨tokenKind, value, s.place⟩
      bump source length
      return .inl (Code.braceDepth depth tokenKind)

/-- Moves over white space and then over a word or the closing mark of a tag. -/
def codeStep (kind : TagKind) (opened : Position) (depth : Nat) : Scan (Nat ⊕ Bool) := do
  let spaced ← rest source
  bump source (whiteLength spaced)
  let text ← rest source
  codeWord options source kind opened depth text

end Code

/-- Repeats a step until it gives a result. Each time it has to move on, but not beyond the end. -/
def loop {α β : Type} (size : Nat) (step : α → Scan (α ⊕ β)) (a : α) (s : State) :
    EStateM.Result Halt State β :=
  match step a s with
  | .error halt t => .error halt t
  | .ok next t =>
    if _h : s.pos < t.pos ∧ t.pos ≤ size then
      match next with
      | .inl a => loop size step a t
      | .inr b => .ok b t
    else .error (.stalled s.pos) t
termination_by size - s.pos
decreasing_by omega

section Source

variable (options : LanguageOptions) (source : List Char)

/-- Moves over a tag whose opening mark takes so many bytes. -/
def lexTagCode (kind : TagKind) (openerLength : Nat) : Scan Unit := do
  let s ← get
  push ⟨Segment.openingKind kind, options.delimiters.opener kind, s.place⟩
  bump source openerLength
  let stripped ← loop (byteLength source) (codeStep options source kind s.place) 0
  setStripNext stripped
  if kind = .block then skipTrimmedNewline options source
  else return ()

/-- Moves over a block or variable tag, or over a raw block. -/
def lexTag (kind : TagKind) : Scan Unit := do
  let opener := options.delimiters.opener kind
  let text ← rest source
  let inside ← sliceFrom text (byteLength opener.toList)
  let length := byteLength opener.toList + if startsWith ['-'] inside then 1 else 0
  if ← lexRawOf options source kind length then return ()
  else lexTagCode options source kind length

/-- Moves over the construct of some kind that opens here. -/
def lexConstruct : TagKind → Scan Unit
  | .comment => lexComment options source
  | kind => lexTag options source kind

/-- Moves over a run of text and the construct after it, if there is one. The result tells that there
    is nothing left. -/
def sourceStep : Unit → Scan (Unit ⊕ Unit)
  | () => do
    match ← nextTag options source with
    | none =>
      lexData options source (byteLength source) none
      return .inr ()
    | some (offset, kind) =>
      lexData options source offset (some kind)
      lexConstruct options source kind
      let s ← get
      return if s.pos < byteLength source then .inl () else .inr ()

/-- Moves over the whole source. -/
def lexSource : Scan Unit :=
  if source.isEmpty then return ()
  else loop (byteLength source) (sourceStep options source) ()

/-- The tokens of a source, the end-of-source token last. -/
def tokenize (source : String) : Except Halt (List Token) :=
  match lexSource options source.toList {} with
  | .ok _ s => .ok (s.tokens ++ [Token.eofAt s.place])
  | .error halt _ => .error halt

end Source

end ByteLexer

end TemplateManifest
