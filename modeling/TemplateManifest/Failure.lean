import TemplateManifest.Compile.Fault
import TemplateManifest.Template.SyntaxError

/-!
Why no manifest can be made of a template. A failure ends the whole call: there is no partial
manifest.
-/

namespace TemplateManifest

/-- What a reference names. -/
inductive ReferenceKind where
  /-- Another template. -/
  | template
  /-- A static file. -/
  | asset
deriving DecidableEq, Repr, Inhabited

/-- A kind of reference at the start of a message. -/
def ReferenceKind.label : ReferenceKind → String
  | .template => "Template"
  | .asset => "Asset"

/-- What a declared module is expected to provide. -/
inductive AddonKind where
  | extension
  | filter
deriving DecidableEq, Repr, Inhabited

/-- A kind of addon inside a message. -/
def AddonKind.label : AddonKind → String
  | .extension => "extension"
  | .filter => "filter"

/-- The ways in which access to a file fails, as far as advice differs. -/
inductive FileFault where
  | notFound
  | permissionDenied
  | other
deriving DecidableEq, Repr, Inhabited

/-- Access to a file failed, with the words of the operating system. -/
structure FileError where
  fault : FileFault
  text : String
deriving DecidableEq, Repr, Inhabited

/-- Why no manifest can be made of a template. -/
inductive Failure where
  /-- The source violates the grammar, at a place if one is known. -/
  | parse (template reason : String) (line col : Option Nat)
  /-- A reference that exists under none of the candidate paths. -/
  | notFound (kind : ReferenceKind) (name : String) (searched : List Path)
  /-- An operand of an asset path that is neither a literal nor a variable nor a sum. -/
  | unsupported (template description : String) (pos : Position)
  /-- An extension or a filter that could not be loaded. -/
  | addonLoad (kind : AddonKind) (name : String) (modulePath : Path) (reason : String)
  /-- The syntax tree cannot be compiled. -/
  | compile (template reason : String)
  /-- The configuration cannot be used. -/
  | config (reason : String)
  | file (error : FileError)
deriving DecidableEq, Repr, Inhabited

/-- A place inside a message; a column alone does not count. -/
def placeText : Option Nat → Option Nat → String
  | some line, some col => " at line " ++ toString line ++ ", column " ++ toString col
  | some line, none => " at line " ++ toString line
  | none, _ => ""

/-- The text of a failure. -/
def Failure.message : Failure → String
  | .parse template reason line col =>
    "Failed to parse template '" ++ template ++ "'" ++ placeText line col ++ ": " ++ reason
  | .notFound kind name _ => kind.label ++ " '" ++ name ++ "' not found in any search path"
  | .unsupported template description pos =>
    "Unsupported expression in asset path of '" ++ template ++ "'" ++
      placeText (some pos.line) (some pos.col) ++ ": " ++ description ++
      " is not a literal, variable or concatenation"
  | .addonLoad kind name modulePath reason =>
    "Failed to load " ++ kind.label ++ " '" ++ name ++ "' from '" ++ modulePath.text ++ "': " ++
      reason
  | .compile template reason => "Failed to compile template '" ++ template ++ "': " ++ reason
  | .config reason => "Configuration error: " ++ reason
  | .file error => "IO error: " ++ error.text

/-- A syntax error of a template as a failure. -/
def SyntaxError.failure (template : String) (e : SyntaxError) : Failure :=
  .parse template e.fault.message (some e.pos.line) (some e.pos.col)

/-- A compile fault of a template as a failure. -/
def CompileFault.failure (template : String) (fault : CompileFault) : Failure :=
  .compile template fault.message

end TemplateManifest
