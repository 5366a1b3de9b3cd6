import TemplateManifest.Template.Lexer
import TemplateManifest.Template.Statement

/-!
From the source of a template to its syntax tree.
-/

namespace TemplateManifest

/-- The syntax tree of a source. -/
def Template.parse (env : Environment) (name source : String) : Except SyntaxError Template :=
  match tokenize env.options source with
  | .error e => .error e
  | .ok tokens =>
    match Parser.root env (TokenStream.ofTokens tokens) with
    | .ok body _ => .ok ⟨name, body⟩
    | .error e _ => .error e

end TemplateManifest
