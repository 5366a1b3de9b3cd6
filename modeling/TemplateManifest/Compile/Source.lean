import TemplateManifest.Compile.Template
import TemplateManifest.Failure
import TemplateManifest.Template.Parse

/-!
From the source of a template to compiled text, with failures that name the template.
-/

namespace TemplateManifest

/-- The syntax tree of a source. -/
def Template.ofSource (env : Environment) (name source : String) : Except Failure Template :=
  (Template.parse env name source).mapError (SyntaxError.failure name)

/-- The text of the module of a template. -/
def Template.compiledText (template : Template) (env : Environment) (moduleVar : String) :
    Except Failure String :=
  match template.compile env moduleVar with
  | .ok module => .ok module.text
  | .error fault => .error (fault.failure template.name)

/-- A syntax error as a reason why a template cannot be compiled. -/
def SyntaxError.compileReason (e : SyntaxError) : String :=
  e.fault.message ++ " (line " ++ toString e.pos.line ++ ", column " ++ toString e.pos.col ++ ")"

/-- The text of the module of a source. A syntax error counts as a failure to compile. -/
def precompile (env : Environment) (name source moduleVar : String) : Except Failure String :=
  match Template.parse env name source with
  | .error e => .error (.compile name e.compileReason)
  | .ok template => template.compiledText env moduleVar

end TemplateManifest
