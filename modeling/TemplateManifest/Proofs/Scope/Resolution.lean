import Mathlib.Data.List.Forall2
import TemplateManifest.Compile.Source
import TemplateManifest.Proofs.Compile.Lexical
import TemplateManifest.Proofs.Script.Parts

/-!
What the symbols of a template resolve to. The code of a symbol is the variable of its innermost
visible binding, or a look-up in the frame and the context if that binding has no variable or
there is none; but a parameter with a default does not hide a variable further out. Main
statement: `Template.resolvesSymbols_compile`, for any template that compiles.
-/

namespace TemplateManifest

open Script Vocabulary

namespace Script

/-- A symbol of a template with its code. -/
structure SymbolCode where
  pos : Position
  name : String
  code : Expr

/-- The expression as the code of a symbol. -/
def symbolCode? : Expr → Option SymbolCode
  | .ofNode (.symbol pos name) code => some ⟨pos, name, code⟩
  | _ => none

/-- The codes of the symbols in some statements, in functions inside them too. -/
def Stmt.symbolCodes (body : List Stmt) : List SymbolCode :=
  (Stmt.partsAll body).filterMap symbolCode?

/-- The codes of the symbols in what an expression does with variables. -/
def Use.symbolCodes : Use → List SymbolCode
  | .read _ | .write _ => []
  | .symbol pos name code => [⟨pos, name, code⟩]
  | .function _ body => Stmt.symbolCodes body

mutual

theorem Expr.symbolCodes_uses : ∀ e : Expr,
    e.parts.filterMap symbolCode? = e.uses.flatMap Use.symbolCodes
  | .variable v | .constant text | .string value => rfl
  | .member inner _ | .paren inner | .signed _ inner | .await inner | .assign v inner => by
    simpa [Expr.parts, Expr.uses, List.filterMap_cons, symbolCode?, Use.symbolCodes] using inner.symbolCodes_uses
  | .index left right | .operation _ left right => by
    simp [Expr.parts, Expr.uses, List.filterMap_cons, symbolCode?, left.symbolCodes_uses, right.symbolCodes_uses]
  | .call callee args | .create callee args => by
    simp [Expr.parts, Expr.uses, List.filterMap_cons, symbolCode?, callee.symbolCodes_uses, Expr.symbolCodes_usesAll]
  | .array items | .sequence items => by
    simp [Expr.parts, Expr.uses, List.filterMap_cons, symbolCode?, Expr.symbolCodes_usesAll]
  | .object entries => by
    simp [Expr.parts, Expr.uses, List.filterMap_cons, symbolCode?, Expr.symbolCodes_usesEntries]
  | .conditional cond yes no => by
    simp [Expr.parts, Expr.uses, List.filterMap_cons, symbolCode?, cond.symbolCodes_uses, yes.symbolCodes_uses,
      no.symbolCodes_uses]
  | .function isAsync params body => by
    simp [Expr.parts, Expr.uses, List.filterMap_cons, symbolCode?, Use.symbolCodes, Stmt.symbolCodes]
  | .ofNode node code => by
    cases node <;>
      simp [Expr.parts, Expr.uses, List.filterMap_cons, symbolCode?, symbolUse, Use.symbolCodes, code.symbolCodes_uses]

theorem Expr.symbolCodes_usesAll : ∀ es : List Expr,
    (Expr.partsAll es).filterMap symbolCode? = (Expr.usesAll es).flatMap Use.symbolCodes
  | [] => rfl
  | e :: es => by
    simp [Expr.partsAll, Expr.usesAll, e.symbolCodes_uses, Expr.symbolCodes_usesAll es]

theorem Expr.symbolCodes_usesEntries : ∀ entries : List (Expr × Expr),
    (Expr.partsEntries entries).filterMap symbolCode? =
      (Expr.usesEntries entries).flatMap Use.symbolCodes
  | [] => rfl
  | (key, value) :: entries => by
    simp [Expr.partsEntries, Expr.usesEntries, key.symbolCodes_uses, value.symbolCodes_uses,
      Expr.symbolCodes_usesEntries entries]

end

/-- The codes of the symbols in an expression, in functions inside it too. -/
def Expr.symbolCodes (e : Expr) : List SymbolCode :=
  e.notable.flatMap Use.symbolCodes

/-- Common variables are no symbols. -/
theorem Expr.symbolCodes_eq (e : Expr) : e.parts.filterMap symbolCode? = e.symbolCodes := by
  rw [e.symbolCodes_uses, Expr.symbolCodes, Expr.notable]
  induction e.uses with
  | nil => rfl
  | cons use us ih =>
    by_cases hnotable : use.isNotable = true
    · simp [hnotable, ih]
    · cases use with
      | read | write => simpa [hnotable, Use.symbolCodes] using ih
      | symbol | function => exact absurd rfl hnotable

namespace Stmt

@[simp]
theorem symbolCodes_nil : symbolCodes [] = [] := rfl

@[simp]
theorem symbolCodes_append (body body' : List Stmt) :
    symbolCodes (body ++ body') = symbolCodes body ++ symbolCodes body' := by
  simp [symbolCodes]

section

variable (cond value : Expr) (inner other body : List Stmt)

@[simp]
theorem symbolCodes_declare_none (v : Variable) :
    symbolCodes (.declare v none :: body) = symbolCodes body := rfl

@[simp]
theorem symbolCodes_declare (v : Variable) :
    symbolCodes (.declare v (some value) :: body) = value.symbolCodes ++ symbolCodes body := by
  simp [symbolCodes, partsAll, parts, Expr.symbolCodes_eq]

@[simp]
theorem symbolCodes_assignAll (targets : List Variable) :
    symbolCodes (.assignAll targets value :: body) = value.symbolCodes ++ symbolCodes body := by
  simp [symbolCodes, partsAll, parts, Expr.symbolCodes_eq]

@[simp]
theorem symbolCodes_append_value (v : Variable) :
    symbolCodes (.append v value :: body) = value.symbolCodes ++ symbolCodes body := by
  simp [symbolCodes, partsAll, parts, Expr.symbolCodes_eq]

@[simp]
theorem symbolCodes_run :
    symbolCodes (.run value :: body) = value.symbolCodes ++ symbolCodes body := by
  simp [symbolCodes, partsAll, parts, Expr.symbolCodes_eq]

@[simp]
theorem symbolCodes_throw :
    symbolCodes (.throw value :: body) = value.symbolCodes ++ symbolCodes body := by
  simp [symbolCodes, partsAll, parts, Expr.symbolCodes_eq]

@[simp]
theorem symbolCodes_return :
    symbolCodes (.return value :: body) = value.symbolCodes ++ symbolCodes body := by
  simp [symbolCodes, partsAll, parts, Expr.symbolCodes_eq]

@[simp]
theorem symbolCodes_branch :
    symbolCodes (.branch cond inner :: body) =
      cond.symbolCodes ++ (symbolCodes inner ++ symbolCodes body) := by
  simp [symbolCodes, partsAll, parts, Expr.symbolCodes_eq]

@[simp]
theorem symbolCodes_branchElse :
    symbolCodes (.branchElse cond inner other :: body) =
      cond.symbolCodes ++ (symbolCodes inner ++ (symbolCodes other ++ symbolCodes body)) := by
  simp [symbolCodes, partsAll, parts, Expr.symbolCodes_eq]

@[simp]
theorem symbolCodes_guard :
    symbolCodes (.guard cond inner :: body) =
      cond.symbolCodes ++ (symbolCodes inner ++ symbolCodes body) := by
  simp [symbolCodes, partsAll, parts, Expr.symbolCodes_eq]

@[simp]
theorem symbolCodes_guardElse :
    symbolCodes (.guardElse cond inner other :: body) =
      cond.symbolCodes ++ (symbolCodes inner ++ (symbolCodes other ++ symbolCodes body)) := by
  simp [symbolCodes, partsAll, parts, Expr.symbolCodes_eq]

@[simp]
theorem symbolCodes_countTo (counter limit : Variable) :
    symbolCodes (.countTo counter limit inner :: body) =
      symbolCodes inner ++ symbolCodes body := by
  simp [symbolCodes, partsAll, parts]

@[simp]
theorem symbolCodes_forKeys (key : Variable) :
    symbolCodes (.forKeys key value inner :: body) =
      value.symbolCodes ++ (symbolCodes inner ++ symbolCodes body) := by
  simp [symbolCodes, partsAll, parts, Expr.symbolCodes_eq]

end

end Stmt

/-- The codes of the symbols in a piece of code. -/
def Piece.symbolCodes : Piece → List SymbolCode
  | .uses us => us.flatMap Use.symbolCodes
  | .code body => Stmt.symbolCodes body

@[simp]
theorem Piece.symbolCodes_notable (e : Expr) :
    (Piece.uses e.notable).symbolCodes = e.symbolCodes := rfl

@[simp]
theorem Piece.symbolCodes_code (body : List Stmt) :
    (Piece.code body).symbolCodes = Stmt.symbolCodes body := rfl

@[simp]
theorem Expr.symbolCodes_member (target : Expr) (name : String) :
    (Expr.member target name).symbolCodes = target.symbolCodes := rfl

@[simp]
theorem Expr.symbolCodes_signed (sign : Sign) (operand : Expr) :
    (Expr.signed sign operand).symbolCodes = operand.symbolCodes := rfl

@[simp]
theorem Expr.symbolCodes_variable (v : Variable) : (Expr.variable v).symbolCodes = [] := by
  unfold Expr.symbolCodes Expr.notable
  cases hcommon : v.isCommon <;> simp [Expr.uses, Use.isNotable, hcommon, Use.symbolCodes]

theorem Does.symbolCodes {known : List Variable} {s : Stmt} {value : Expr}
    (h : Does known s value) (body : List Stmt) :
    Stmt.symbolCodes (s :: body) = value.symbolCodes ++ Stmt.symbolCodes body := by
  cases h <;> simp

end Script

/-- A symbol that stands where some bindings are visible. -/
structure Occurrence where
  pos : Position
  name : String
  visible : Visible

namespace Occurrence

/-- The code for what holds a symbol. -/
def codeOf (name : String) : Option Holder → Expr
  | some x => .variable x.variable
  | none => contextLookup name

/-- What a symbol compiles to if it means its innermost visible binding. -/
def lexicalCode (o : Occurrence) : Expr :=
  codeOf o.name (o.visible.innermost? o.name)

/-- The symbol with what it compiles to: the variable of the innermost visible binding that has
    one. -/
def compiled (o : Occurrence) : SymbolCode :=
  ⟨o.pos, o.name, codeOf o.name (o.visible.holder? o.name)⟩

theorem codeOf_injective (name : String) : Function.Injective (codeOf name) := by
  intro x y h
  cases x with
  | none =>
    cases y with
    | none => rfl
    | some y => cases h
  | some x =>
    cases y with
    | none => cases h
    | some y => rw [Holder.variable_injective (Expr.variable.inj h)]

/-- A symbol compiles to what it means unless a parameter with a default should hide a variable
    from it. -/
theorem compiled_eq_lexicalCode_iff (o : Occurrence) :
    o.compiled.code = o.lexicalCode ↔ ¬ o.visible.Hides o.name := by
  rw [← Visible.innermost?_eq_holder?_iff, eq_comm]
  exact (codeOf_injective o.name).eq_iff

end Occurrence

namespace Flow

mutual

/-- The symbols of a flow with what is visible to them. -/
def occurrences : Flow → List Occurrence
  | symbol pos name visible => [⟨pos, name, visible⟩]
  | assign _ | block _ | parent => []
  | branch body otherwise => occurrencesAll body ++ occurrencesAll otherwise
  | loop _ body _ otherwise => occurrencesAll body ++ occurrencesAll otherwise
  | function _ body => occurrencesAll body

/-- The symbols of some flows with what is visible to them. -/
def occurrencesAll : List Flow → List Occurrence
  | [] => []
  | step :: flow => step.occurrences ++ occurrencesAll flow

end

@[simp]
theorem occurrencesAll_append (flow flow' : List Flow) :
    occurrencesAll (flow ++ flow') = occurrencesAll flow ++ occurrencesAll flow' := by
  induction flow with
  | nil => rfl
  | cons step flow ih => simp [occurrencesAll, ih]

end Flow

theorem symbolCodes_declarations (holders : List Holder) :
    Stmt.symbolCodes (holders.map fun x => .declare x.variable none) = [] := by
  induction holders with
  | nil => rfl
  | cons x holders ih => exact ih

theorem symbolCodes_adoptParent (v : Variable) : Stmt.symbolCodes (adoptParent v) = [] := rfl

/-- In the code of a flow, each symbol has the code that is due to it. -/
theorem Emits.symbolCodes {known : List Variable} {flow : List Flow} {p : Piece}
    (h : Emits known flow p) :
    p.symbolCodes = (Flow.occurrencesAll flow).map Occurrence.compiled := by
  have hcommon {e : Expr} (he : e.notable = []) : e.symbolCodes = [] := by
    rw [Expr.symbolCodes, he]
    rfl
  induction h with
  | none | done => rfl
  | read _ _ ih => exact ih
  | held hx _ ih | unheld hx _ ih =>
    rw [Flow.occurrencesAll, Flow.occurrences, List.map_append, ← ih]
    simp [Piece.symbolCodes, Use.symbolCodes, Occurrence.compiled, Occurrence.codeOf, hx]
  | function _ _ hresult _ ihbody ih =>
    rw [Flow.occurrencesAll, Flow.occurrences, List.map_append, ← ih, ← ihbody]
    simp [Piece.symbolCodes, Use.symbolCodes, hcommon hresult]
  | step hs _ _ ihvalue ih =>
    rw [Flow.occurrencesAll_append, List.map_append, ← ih, ← ihvalue]
    exact hs.symbolCodes _
  | guard | declareNamed | declare | member | branch | branchElse | assign =>
    simp_all [Flow.occurrencesAll, Flow.occurrences, symbolCodes_declarations]
  | loop | loopElse =>
    simp_all [Flow.occurrencesAll, Flow.occurrences, loopBody]
  | block =>
    simp_all [Flow.occurrencesAll, Flow.occurrences, name]
  | parent =>
    simp_all [Flow.occurrencesAll, Flow.occurrences, symbolCodes_adoptParent]

/-- The symbol that stands at a step. -/
def Outline.symbol? : Outline → Option (Position × String)
  | symbol pos name => some (pos, name)
  | _ => none

/-- The symbols in some steps, those in blocks apart. -/
def Outline.symbols (steps : List Outline) : List (Position × String) :=
  (leavesAll steps).filterMap symbol?

mutual

theorem Flow.symbols_occurrences : ∀ step : Flow,
    step.occurrences.map (fun o => (o.pos, o.name)) = step.leaves.filterMap Outline.symbol?
  | .symbol _ _ _ | .assign _ | .block _ | .parent => rfl
  | .branch body otherwise | .loop _ body _ otherwise => by
    simp [occurrences, leaves, Flow.symbols_occurrencesAll]
  | .function _ body => by
    simp [occurrences, leaves, Flow.symbols_occurrencesAll]

theorem Flow.symbols_occurrencesAll : ∀ flow : List Flow,
    (occurrencesAll flow).map (fun o => (o.pos, o.name)) =
      (leavesAll flow).filterMap Outline.symbol?
  | [] => rfl
  | step :: flow => by
    simp [occurrencesAll, leavesAll, Flow.symbols_occurrences step,
      Flow.symbols_occurrencesAll flow]

end

/-- Each symbol of a body stands in the function, in order, with the code for the innermost
    visible binding that has a variable. This is what the symbol means unless a parameter with a
    default should hide a variable. -/
def ResolvesSymbols (body : List Node) (function : List Stmt) : Prop :=
  ∃ temps,
    (Flow.occurrencesAll (Node.bodyFlow body temps)).map (fun o => (o.pos, o.name)) =
        Outline.symbols (Node.outlineAll body) ∧
      List.Forall₂
        (fun o c => c = o.compiled ∧ (c.code = o.lexicalCode ↔ ¬ o.visible.Hides o.name))
        (Flow.occurrencesAll (Node.bodyFlow body temps)) (Stmt.symbolCodes function)

theorem Renders.resolvesSymbols {start finish : List Stmt} {body : List Node}
    {function : List Stmt} (h : Renders start finish body function)
    (hstart : Stmt.symbolCodes start = []) (hfinish : Stmt.symbolCodes finish = []) :
    ResolvesSymbols body function := by
  obtain ⟨temps, code, rfl, hemits⟩ := h
  refine ⟨temps, ?_, ?_⟩
  · rw [Flow.symbols_occurrencesAll, Node.bodyFlow, Outline.leaves_flowAll, Outline.symbols]
  · have hcode : Stmt.symbolCodes code = _ := hemits.symbolCodes
    rw [Stmt.symbolCodes_append, Stmt.symbolCodes_append, hstart, hfinish, hcode, List.nil_append,
      List.append_nil, List.forall₂_map_right_iff]
    exact List.forall₂_same.mpr fun o _ => ⟨rfl, o.compiled_eq_lexicalCode_iff⟩

/-- Symbols are resolved lexically, in the root function for the body of the template and in the
    function of each block for its body, except for what a parameter with a default should hide;
    and every symbol of the template stands in one of these bodies. -/
theorem Template.resolvesSymbols_compile {template : Template} {env : Environment}
    {moduleVar : String} {module : Module} (h : template.compile env moduleVar = .ok module) :
    ResolvesSymbols template.body module.root ∧
      ∃ bs : List PendingBlock, (∀ b, b ∈ bs ↔ ∃ pos, (Node.block pos b.name b.body).Among template.body) ∧
        List.Forall₂
          (fun b function => function.name = b.name ∧ ResolvesSymbols b.body function.body)
          bs module.blocks ∧
        ∀ pos name, .symbol pos name ∈ template.walk →
          (pos, name) ∈ Outline.symbols (Node.outlineAll template.body) ∨
            ∃ b ∈ bs, (pos, name) ∈ Outline.symbols (Node.outlineAll b.body) := by
  obtain ⟨hroot, bs, hbs, hblocks⟩ := template.renders_compile h
  refine ⟨Renders.resolvesSymbols ⟨0, hroot⟩ rfl ?_, bs, fun b => (hbs b).trans Node.hasBlock_iff,
    hblocks.imp fun b function hfunction => ⟨hfunction.1, hfunction.2.resolvesSymbols rfl rfl⟩,
    fun pos name hwalk => ?_⟩
  · unfold rootEnd CodeContext.awaitedIfAsync
    split <;> rfl
  · have hsymbol {nodes : List Node}
        (hleaf : .symbol pos name ∈ Outline.leavesAll (Node.outlineAll nodes)) :
        (pos, name) ∈ Outline.symbols (Node.outlineAll nodes) :=
      List.mem_filterMap.mpr ⟨_, hleaf, rfl⟩
    have hamong := Node.among_of_mem_walk hwalk
    rcases Node.mem_leavesAll_of_among rfl hamong with hleaf | ⟨b, hb, hleaf⟩
    · exact .inl (hsymbol hleaf)
    · exact .inr ⟨b, (hbs b).mpr hb, hsymbol hleaf⟩

theorem Template.resolvesSymbols_compile_shadowing_target :
    let source := "\x7b% set x = 1 %\x7d\x7b% for x in xs %\x7d\x7b\x7b x \x7d\x7d\x7b% endfor %\x7d\x7b\x7b x \x7d\x7d"
    ∃ template module, Template.ofSource {} "t.njk" source = .ok template ∧
      template.compile {} "template" = .ok module ∧
      (Stmt.symbolCodes module.root).map (·.name) = ["xs", "x", "x"] ∧
      ResolvesSymbols template.body module.root := by
  intro source
  have hfound : (Template.ofSource {} "t.njk" source).toOption.any fun template =>
      (template.compile {} "template").toOption.any fun module =>
        (Stmt.symbolCodes module.root).map (·.name) = ["xs", "x", "x"] := by
    decide +kernel
  obtain ⟨template, htemplate, hfound⟩ := exists_eq_ok_of_any hfound
  obtain ⟨module, hmodule, hfound⟩ := exists_eq_ok_of_any hfound
  exact ⟨template, module, htemplate, hmodule, of_decide_eq_true hfound,
    (Template.resolvesSymbols_compile hmodule).1⟩

/-- The one symbol means a parameter that the frame holds, and its code is the first temporary. -/
def readsTemporaryForParameter : List Occurrence → List SymbolCode → Bool
  | [o], [⟨pos, name, .variable (.temp index)⟩] =>
    o.visible.lookup o.name = some none ∧ pos = o.pos ∧ name = o.name ∧ index = 1
  | _, _ => false

/-- A parameter with a default does not hide an outer variable: in the macro `m`, the symbol `b`
    means the parameter, which the frame holds, and compiles to the variable that was set before. -/
theorem parameter_with_default_not_hiding :
    let source := "\x7b% set b = 1 %\x7d\x7b% macro m(b=2) %\x7d\x7b\x7b b \x7d\x7d\x7b% endmacro %\x7d"
    ∃ template module o, Template.ofSource {} "t.njk" source = .ok template ∧
      template.compile {} "template" = .ok module ∧
      Flow.occurrencesAll (Node.bodyFlow template.body 0) = [o] ∧
      o.visible.lookup o.name = some none ∧ o.lexicalCode = contextLookup o.name ∧
      Stmt.symbolCodes module.root = [⟨o.pos, o.name, .variable (.temp 1)⟩] := by
  intro source
  have hfound : (Template.ofSource {} "t.njk" source).toOption.any fun template =>
      (template.compile {} "template").toOption.any fun module =>
        readsTemporaryForParameter (Flow.occurrencesAll (Node.bodyFlow template.body 0))
          (Stmt.symbolCodes module.root) := by
    decide +kernel
  obtain ⟨template, htemplate, hfound⟩ := exists_eq_ok_of_any hfound
  obtain ⟨module, hmodule, hfound⟩ := exists_eq_ok_of_any hfound
  generalize hoccurrences : Flow.occurrencesAll (Node.bodyFlow template.body 0) = occurrences
    at hfound
  generalize hcodes : Stmt.symbolCodes module.root = codes at hfound
  unfold readsTemporaryForParameter at hfound
  split at hfound
  · next o pos name index =>
    obtain ⟨hvisible, rfl, rfl, rfl⟩ := of_decide_eq_true hfound
    refine ⟨template, module, o, htemplate, hmodule, hoccurrences, hvisible, ?_, hcodes⟩
    simp [Occurrence.lexicalCode, Visible.innermost?, hvisible, Occurrence.codeOf]
  · cases hfound

end TemplateManifest
