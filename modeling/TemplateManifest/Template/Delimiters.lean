/-!
The delimiters that set tags apart from text, and the options of the template language.
-/

namespace TemplateManifest

/-- The three kinds of tags. -/
inductive TagKind where
  | block
  | variable
  | comment
deriving DecidableEq, Repr, Inhabited

/-- The opening and closing marks of each kind of tag. -/
structure Delimiters where
  blockStart : String := "\x7b%"
  blockEnd : String := "%\x7d"
  variableStart : String := "\x7b\x7b"
  variableEnd : String := "\x7d\x7d"
  commentStart : String := "\x7b#"
  commentEnd : String := "#\x7d"
deriving DecidableEq, Repr, Inhabited

namespace Delimiters

/-- The mark that opens a tag of the given kind. -/
def opener (d : Delimiters) : TagKind → String
  | .block => d.blockStart
  | .variable => d.variableStart
  | .comment => d.commentStart

/-- The mark that closes a tag of the given kind. -/
def closer (d : Delimiters) : TagKind → String
  | .block => d.blockEnd
  | .variable => d.variableEnd
  | .comment => d.commentEnd

/-- The delimiters with the names under which they are configured. -/
def named (d : Delimiters) : List (String × String) :=
  [("block_start", d.blockStart), ("block_end", d.blockEnd),
   ("variable_start", d.variableStart), ("variable_end", d.variableEnd),
   ("comment_start", d.commentStart), ("comment_end", d.commentEnd)]

/-- Why a set of delimiters cannot be used. -/
inductive Fault where
  | empty (name : String)
  | sameOpeners
deriving DecidableEq, Repr

/-- The text of a fault. -/
def Fault.message : Fault → String
  | .empty name => "tag delimiter `" ++ name ++ "` must not be empty"
  | .sameOpeners => "block, variable and comment openers must be distinct"

/-- The first fault of the delimiters: each must have a character, and the openers differ. -/
def fault? (d : Delimiters) : Option Fault :=
  match d.named.find? fun entry => entry.2.isEmpty with
  | some (name, _) => some (.empty name)
  | none =>
    if d.blockStart = d.variableStart ∨ d.blockStart = d.commentStart
        ∨ d.variableStart = d.commentStart then some .sameOpeners
    else none

/-- The delimiters can be used. -/
def Valid (d : Delimiters) : Prop := d.fault? = none

instance (d : Delimiters) : Decidable d.Valid := inferInstanceAs (Decidable (_ = _))

end Delimiters

/-- Options of the template language. `autoescape` and `throwOnUndefined` choose the emitted
    code; `trimBlocks` drops a line break after a block tag, and `lstripBlocks` the indentation
    before one. -/
structure LanguageOptions where
  autoescape : Bool := true
  throwOnUndefined : Bool := false
  trimBlocks : Bool := false
  lstripBlocks : Bool := false
  delimiters : Delimiters := {}
deriving DecidableEq, Repr, Inhabited

end TemplateManifest
