import TemplateManifest.Template.Segment

/-!
The tokens of a source. Each run of text becomes one token after white space control, which
looks at the constructs on both sides of the run; a run that becomes empty gives no token.
-/

namespace TemplateManifest

open Text

namespace Segment

/-- The construct that a list of segments starts with. -/
def nextConstruct? : List Segment → Option Construct
  | .construct c :: _ => some c
  | _ => none

/-- The text without the spaces and tabs at its end, when these reach back to the start of a
    line. `atLineStart` tells that the text itself starts a line. -/
def dropIndent (atLineStart : Bool) (text : List Char) : List Char :=
  let kept := (text.reverse.dropWhile fun c => c = ' ' || c = '\t').reverse
  if kept.getLast? = some '\n' || (kept.isEmpty && atLineStart) then kept else text

/-- A run of text after white space control. `strip` tells that the construct before it closed
    with a `-`, and `next` is the construct after it. -/
def visibleText (options : LanguageOptions) (strip : Bool) (start : Position)
    (chars : List Char) (next : Option Construct) : List Char :=
  let chars := if strip then trimStart chars else chars
  match next with
  | none => chars
  | some c =>
    if c.stripsBefore then trimEnd chars
    else if options.lstripBlocks && c.kind ≠ .variable then dropIndent (start.col = 1) chars
    else chars

/-- The tokens of a list of segments; `strip` tells that the construct before them closed with
    a `-`. -/
def tokensAfter (options : LanguageOptions) : Bool → List Segment → List Token
  | _, [] => []
  | strip, .text start chars :: segments =>
    let visible := visibleText options strip start chars (nextConstruct? segments)
    let tokens := tokensAfter options false segments
    if visible.isEmpty then tokens else ⟨.data, String.ofList visible, start⟩ :: tokens
  | _, .construct c :: segments => c.tokens ++ tokensAfter options c.stripsAfter segments

end Segment

/-- The tokens of a source, the end-of-source token last. -/
def tokenize (options : LanguageOptions) (source : String) : Except SyntaxError (List Token) :=
  match Segment.split options source with
  | .error e => .error e
  | .ok (segments, finish) =>
    .ok (Segment.tokensAfter options false segments ++ [Token.eofAt finish])

end TemplateManifest
