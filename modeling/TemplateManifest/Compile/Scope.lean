import TemplateManifest.Compile.Fault
import TemplateManifest.Script.Basic

/-!
The state of code generation: the temporaries handed out so far, the local variables that hold
symbols, and the blocks whose functions are still to be written.
-/

namespace TemplateManifest

open Script

/-- The local variables that hold symbols, the latest first. -/
abbrev Scope := List (String × Variable)

/-- A named block whose function is still to be written. -/
structure PendingBlock where
  name : String
  body : List Node
deriving Repr, Inhabited

/-- The state of code generation. -/
structure CodeState where
  /-- The number of temporaries handed out. -/
  temps : Nat := 0
  /-- The open scopes, the innermost first. -/
  scopes : List Scope := [[]]
  /-- The blocks still to be written, the first one first. -/
  pending : List PendingBlock := []
deriving Inhabited

/-- The variable that holds a symbol: that of the innermost scope which has one. -/
def CodeState.holder? (s : CodeState) (symbol : String) : Option Variable :=
  s.scopes.findSome? fun scope => scope.lookup symbol

/-- A step of code generation. -/
abbrev Coder := EStateM CompileFault CodeState

namespace Coder

/-- Hands out a temporary. -/
def fresh : Coder Variable := fun s =>
  .ok (.temp (s.temps + 1)) { s with temps := s.temps + 1 }

/-- Hands out some temporaries. -/
def freshAll : Nat → Coder (List Variable)
  | 0 => return []
  | count + 1 => do
    let v ← fresh
    return v :: (← freshAll count)

/-- The variable that holds a symbol. -/
def holder? (symbol : String) : Coder (Option Variable) := fun s =>
  .ok (s.holder? symbol) s

/-- The variables that hold some symbols, a new temporary for each symbol without one. -/
def variablesFor : List String → Coder (List Variable)
  | [] => return []
  | symbol :: symbols => do
    let v ← match ← holder? symbol with
      | some v => pure v
      | none => fresh
    return v :: (← variablesFor symbols)

/-- Lets a variable hold a symbol in the innermost scope. -/
def bind (symbol : String) (v : Variable) : Coder Unit := fun s =>
  match s.scopes with
  | [] => .ok () s
  | scope :: scopes => .ok () { s with scopes := ((symbol, v) :: scope) :: scopes }

/-- Lets variables hold symbols in the innermost scope, the later ones last. -/
def bindAll : List (String × Variable) → Coder Unit
  | [] => return ()
  | (symbol, v) :: entries => do
    bind symbol v
    bindAll entries

/-- Runs a step in a scope of its own. -/
def inScope {α : Type} (step : Coder α) : Coder α := do
  modify fun s => { s with scopes := [] :: s.scopes }
  let result ← step
  modify fun s => { s with scopes := s.scopes.tail }
  return result

/-- Runs a step in which no outer variable is visible. -/
def isolated {α : Type} (step : Coder α) : Coder α := do
  let scopes := (← get).scopes
  modify fun s => { s with scopes := [[]] }
  let result ← step
  modify fun s => { s with scopes := scopes }
  return result

/-- Notes a block whose function is to be written later. -/
def addBlock (b : PendingBlock) : Coder Unit :=
  modify fun s => { s with pending := s.pending ++ [b] }

/-- Takes the next block whose function is to be written. -/
def nextBlock? : Coder (Option PendingBlock) := fun s =>
  match s.pending with
  | [] => .ok none s
  | b :: pending => .ok (some b) { s with pending := pending }

end Coder

end TemplateManifest
