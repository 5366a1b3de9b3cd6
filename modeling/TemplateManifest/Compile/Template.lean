import TemplateManifest.Compile.Code
import TemplateManifest.Script.Text
import TemplateManifest.Template.Walk

/-!
Compiling a whole template into a module: the root function first, then the function of each
block in the order in which the blocks were met. Writing the function of a block may meet
further blocks, which wait their turn.
-/

namespace TemplateManifest

open Script Vocabulary

/-- The word can name a variable of the emitted code. -/
def isModuleVariable (word : String) : Bool :=
  let first (c : Char) : Bool := c.isAlpha || c = '_' || c = '$'
  match word.toList with
  | [] => false
  | c :: rest => first c && rest.all fun c => first c || c.isDigit

/-- The node is a call that must be awaited. -/
def Node.isAwaited (env : Environment) : Node → Bool
  | .filter _ name _ _ _ => (env.filter? name).any fun filter => filter.isAsync
  | .extensionCall _ site _ _ _ _ isAsync =>
    isAsync || (env.extension? site).any fun e => e.form.isAsync
  | _ => false

/-- Some call of the template must be awaited. -/
def Template.requiresAsync (env : Environment) (template : Template) : Bool :=
  template.walk.any fun node => node.isAwaited env

namespace CodeContext

open Coder

/-- The root function: it gives the output of the template or, when the template extends another
    one, that of its parent. -/
def rootCode (cx : CodeContext) (body : List Node) : Coder (List Stmt) := do
  let code ← statements cx body
  let parent := name "parentTemplate"
  let rendered := cx.awaitedIfAsync (method parent "rootRenderFunc" renderArguments)
  return prologue ++ .declare (.named "parentTemplate") (some (.constant "null")) ::
    (code ++ [.branch parent [.return rendered], .return (name "output")])

/-- The function of a block. -/
def blockCode (cx : CodeContext) (b : PendingBlock) : Coder BlockFunction := do
  let code ← isolated (statements cx b.body)
  return ⟨b.name, prologue ++ pushFrame [truth true] :: (code ++ [.return (name "output")])⟩

/-- The functions of the pending blocks, given the names of the blocks already written. The
    first argument bounds the number of blocks. -/
def blockCodes (cx : CodeContext) : Nat → List String → Coder (List BlockFunction)
  | bound, written => do
    match ← nextBlock? with
    | none => return []
    | some b =>
      if written.contains b.name then throw (.duplicateBlock b.name)
      match bound with
      | 0 => throw .tooManyBlocks
      | bound + 1 =>
        let function ← blockCode cx b
        return function :: (← blockCodes cx bound (b.name :: written))

end CodeContext

/-- The module of a template, bound to the variable `variable`. -/
def Template.compile (template : Template) (env : Environment) (moduleVar : String) :
    Except CompileFault Module :=
  if !isModuleVariable moduleVar then .error (.invalidModuleVariable moduleVar)
  else
    let cx : CodeContext := ⟨template.name, env, template.requiresAsync env⟩
    let coder : Coder Module := do
      let root ← cx.rootCode template.body
      let blocks ← cx.blockCodes (Node.sizeAll template.body) []
      return ⟨moduleVar, cx.isAsync, root, blocks⟩
    match coder {} with
    | .ok module _ => .ok module
    | .error fault _ => .error fault

end TemplateManifest
