import Mathlib.Data.List.Basic
import TemplateManifest.Proofs.Script.Marked

/-!
The expressions inside an emitted module, at any depth. The text of each of them stands in the
text of the module.
-/

namespace TemplateManifest

namespace Script

mutual

/-- An expression and all expressions inside it. -/
def Expr.parts : Expr → List Expr
  | .variable v => [.variable v]
  | .constant text => [.constant text]
  | .string value => [.string value]
  | .member target name => .member target name :: target.parts
  | .index target key => .index target key :: (target.parts ++ key.parts)
  | .call callee args => .call callee args :: (callee.parts ++ Expr.partsAll args)
  | .create constructor args =>
    .create constructor args :: (constructor.parts ++ Expr.partsAll args)
  | .paren inner => .paren inner :: inner.parts
  | .array items => .array items :: Expr.partsAll items
  | .object entries => .object entries :: Expr.partsEntries entries
  | .operation op left right => .operation op left right :: (left.parts ++ right.parts)
  | .signed sign operand => .signed sign operand :: operand.parts
  | .conditional cond yes no =>
    .conditional cond yes no :: (cond.parts ++ (yes.parts ++ no.parts))
  | .await promise => .await promise :: promise.parts
  | .assign v value => .assign v value :: value.parts
  | .sequence items => .sequence items :: Expr.partsAll items
  | .function isAsync params body => .function isAsync params body :: Stmt.partsAll body
  | .ofNode node code => .ofNode node code :: code.parts

/-- All expressions inside some expressions. -/
def Expr.partsAll : List Expr → List Expr
  | [] => []
  | e :: es => e.parts ++ Expr.partsAll es

/-- All expressions inside the entries of an object. -/
def Expr.partsEntries : List (Expr × Expr) → List Expr
  | [] => []
  | (key, value) :: entries => key.parts ++ (value.parts ++ Expr.partsEntries entries)

/-- All expressions inside a statement. -/
def Stmt.parts : Stmt → List Expr
  | .declare _ none => []
  | .declare _ (some value) | .assignAll _ value | .append _ value | .run value | .throw value
  | .return value => value.parts
  | .branch cond body | .guard cond body | .forKeys _ cond body =>
    cond.parts ++ Stmt.partsAll body
  | .branchElse cond body otherwise | .guardElse cond body otherwise =>
    cond.parts ++ (Stmt.partsAll body ++ Stmt.partsAll otherwise)
  | .countTo _ _ body => Stmt.partsAll body

/-- All expressions inside some statements. -/
def Stmt.partsAll : List Stmt → List Expr
  | [] => []
  | s :: body => s.parts ++ Stmt.partsAll body

end

/-- All expressions inside a module. -/
def Module.parts (m : Module) : List Expr :=
  Stmt.partsAll m.root ++ m.blocks.flatMap fun b => Stmt.partsAll b.body

/-- An expression is a part of itself. -/
theorem Expr.mem_parts_self (e : Expr) : e ∈ e.parts := by
  cases e <;> exact List.mem_cons_self

section Lists

-- The equations of all five functions are derived here, once; later proofs ask for them side by side.
attribute [local simp] Expr.parts Expr.partsAll Expr.partsEntries Stmt.parts Stmt.partsAll

@[simp]
theorem Expr.partsAll_append (es es' : List Expr) :
    Expr.partsAll (es ++ es') = Expr.partsAll es ++ Expr.partsAll es' := by
  induction es with
  | nil => rfl
  | cons e es ih => simp [ih]

/-- The parts of some statements are those of each of them. -/
theorem Stmt.partsAll_eq_flatMap (body : List Stmt) :
    Stmt.partsAll body = body.flatMap Stmt.parts := by
  induction body with
  | nil => rfl
  | cons s body ih => simp [ih]

end Lists

@[simp]
theorem Stmt.partsAll_append (body body' : List Stmt) :
    Stmt.partsAll (body ++ body') = Stmt.partsAll body ++ Stmt.partsAll body' := by
  simp only [Stmt.partsAll_eq_flatMap, List.flatMap_append]

/-- Further texts stand in the texts that are joined with one before them. -/
theorem infix_commaJoin_cons (first : String) (texts : List String) :
    (commaJoin texts).toList <:+: (commaJoin (first :: texts)).toList := by
  cases texts with
  | nil => simp [commaJoin]
  | cons second texts =>
    simp only [toList_commaJoin, List.map_cons, List.intercalate_cons_cons]
    exact List.infix_append_right

/-- A text stands in the texts that are joined with it. -/
theorem infix_commaJoin {texts : List String} {text : String} (h : text ∈ texts) :
    text.toList <:+: (commaJoin texts).toList := by
  induction texts with
  | nil => cases h
  | cons first texts ih =>
    rcases List.mem_cons.mp h with rfl | h
    · cases texts with
      | nil => simp [commaJoin]
      | cons second texts =>
        simp only [toList_commaJoin, List.map_cons, List.intercalate_cons_cons]
        exact List.infix_append_of_infix_left List.infix_append_left
    · exact (ih h).trans (infix_commaJoin_cons first texts)

mutual

/-- The text of each part of an expression stands in the text of the expression. -/
theorem Expr.infix_of_mem_parts {e : Expr} : ∀ {x : Expr}, e ∈ x.parts →
    e.text.toList <:+: x.text.toList
  | .variable v, h | .constant text, h | .string value, h => by
    obtain rfl := List.mem_singleton.mp h
    exact List.infix_rfl
  | .member target name, h => by
    rcases List.mem_cons.mp h with rfl | h
    · exact List.infix_rfl
    · have htarget := Expr.infix_of_mem_parts h
      simp only [Expr.text, String.toList_append]
      grind
  | .index target key, h => by
    rcases List.mem_cons.mp h with rfl | h
    · exact List.infix_rfl
    · have hchild := (List.mem_append.mp h).imp Expr.infix_of_mem_parts Expr.infix_of_mem_parts
      simp only [Expr.text, String.toList_append]
      grind
  | .call callee args, h | .create callee args, h => by
    rcases List.mem_cons.mp h with rfl | h
    · exact List.infix_rfl
    · have hchild := (List.mem_append.mp h).imp Expr.infix_of_mem_parts Expr.infix_of_mem_partsAll
      simp only [Expr.text, String.toList_append]
      grind
  | .paren inner, h | .signed _ inner, h | .await inner, h | .assign _ inner, h
  | .ofNode _ inner, h => by
    rcases List.mem_cons.mp h with rfl | h
    · exact List.infix_rfl
    · have hinner := Expr.infix_of_mem_parts h
      simp only [Expr.text, String.toList_append]
      grind
  | .array items, h | .sequence items, h => by
    rcases List.mem_cons.mp h with rfl | h
    · exact List.infix_rfl
    · have hitems := Expr.infix_of_mem_partsAll h
      simp only [Expr.text, String.toList_append]
      grind
  | .object entries, h => by
    rcases List.mem_cons.mp h with rfl | h
    · exact List.infix_rfl
    · have hentries := Expr.infix_of_mem_partsEntries h
      simp only [Expr.text, String.toList_append]
      grind
  | .operation op left right, h => by
    rcases List.mem_cons.mp h with rfl | h
    · exact List.infix_rfl
    · have hchild := (List.mem_append.mp h).imp Expr.infix_of_mem_parts Expr.infix_of_mem_parts
      simp only [Expr.text, String.toList_append]
      grind
  | .conditional cond yes no, h => by
    rcases List.mem_cons.mp h with rfl | h
    · exact List.infix_rfl
    · have hchild := (List.mem_append.mp h).imp Expr.infix_of_mem_parts fun h =>
        (List.mem_append.mp h).imp Expr.infix_of_mem_parts Expr.infix_of_mem_parts
      simp only [Expr.text, String.toList_append]
      grind
  | .function isAsync params body, h => by
    rcases List.mem_cons.mp h with rfl | h
    · exact List.infix_rfl
    · have hbody := Stmt.infix_lines_of_mem_partsAll h
      simp only [Expr.text, String.toList_append]
      grind

theorem Expr.infix_of_mem_partsAll {e : Expr} : ∀ {es : List Expr}, e ∈ Expr.partsAll es →
    e.text.toList <:+: (commaJoin (Expr.texts es)).toList
  | x :: es, h => by
    rcases List.mem_append.mp h with h | h
    · exact (Expr.infix_of_mem_parts h).trans (infix_commaJoin List.mem_cons_self)
    · exact (Expr.infix_of_mem_partsAll h).trans (infix_commaJoin_cons x.text _)

theorem Expr.infix_of_mem_partsEntries {e : Expr} : ∀ {entries : List (Expr × Expr)},
    e ∈ Expr.partsEntries entries → e.text.toList <:+: (commaJoin (Expr.entryTexts entries)).toList
  | (key, value) :: entries, h => by
    rcases List.mem_append.mp h with h | h
    · have hkey := Expr.infix_of_mem_parts h
      refine List.IsInfix.trans ?_ (infix_commaJoin List.mem_cons_self)
      simp only [String.toList_append]
      grind
    · rcases List.mem_append.mp h with h | h
      · have hvalue := Expr.infix_of_mem_parts h
        refine List.IsInfix.trans ?_ (infix_commaJoin List.mem_cons_self)
        simp only [String.toList_append]
        grind
      · exact (Expr.infix_of_mem_partsEntries h).trans (infix_commaJoin_cons _ _)

theorem Stmt.infix_of_mem_parts {e : Expr} : ∀ {s : Stmt}, e ∈ s.parts →
    e.text.toList <:+: s.text.toList
  | .declare _ (some value), h | .assignAll _ value, h | .append _ value, h | .run value, h
  | .throw value, h | .return value, h => by
    have hvalue := Expr.infix_of_mem_parts h
    simp only [Stmt.text, String.toList_append]
    grind
  | .branch cond body, h => by
    have hchild :=
      (List.mem_append.mp h).imp Expr.infix_of_mem_parts Stmt.infix_lines_of_mem_partsAll
    simp only [Stmt.text, String.toList_append]
    grind
  | .guard cond body, h | .forKeys _ cond body, h => by
    have hchild :=
      (List.mem_append.mp h).imp Expr.infix_of_mem_parts Stmt.infix_spaced_of_mem_partsAll
    simp only [Stmt.text, String.toList_append]
    grind
  | .branchElse cond body otherwise, h => by
    have hchild := (List.mem_append.mp h).imp Expr.infix_of_mem_parts fun h =>
      (List.mem_append.mp h).imp Stmt.infix_lines_of_mem_partsAll Stmt.infix_lines_of_mem_partsAll
    simp only [Stmt.text, String.toList_append]
    grind
  | .guardElse cond body otherwise, h => by
    have hchild := (List.mem_append.mp h).imp Expr.infix_of_mem_parts fun h =>
      (List.mem_append.mp h).imp Stmt.infix_spaced_of_mem_partsAll
        Stmt.infix_spaced_of_mem_partsAll
    simp only [Stmt.text, String.toList_append]
    grind
  | .countTo counter limit body, h => by
    have hbody := Stmt.infix_lines_of_mem_partsAll h
    simp only [Stmt.text, String.toList_append]
    grind

theorem Stmt.infix_lines_of_mem_partsAll {e : Expr} : ∀ {body : List Stmt},
    e ∈ Stmt.partsAll body → e.text.toList <:+: (Stmt.lines body).toList
  | s :: body, h => by
    have hchild :=
      (List.mem_append.mp h).imp Stmt.infix_of_mem_parts Stmt.infix_lines_of_mem_partsAll
    simp only [Stmt.lines, String.toList_append]
    grind

theorem Stmt.infix_spaced_of_mem_partsAll {e : Expr} : ∀ {body : List Stmt},
    e ∈ Stmt.partsAll body → e.text.toList <:+: (Stmt.spaced body).toList
  | s :: body, h => by
    have hchild :=
      (List.mem_append.mp h).imp Stmt.infix_of_mem_parts Stmt.infix_spaced_of_mem_partsAll
    simp only [Stmt.spaced, String.toList_append]
    grind

end

/-- The text of each part of a module stands in the text of the module. -/
theorem Module.infix_of_mem_parts {m : Module} {e : Expr} (h : e ∈ m.parts) :
    e.text.toList <:+: m.text.toList := by
  have hfunction {isAsync : Bool} {name : String} {body : List Stmt}
      (hbody : e ∈ Stmt.partsAll body) :
      e.text.toList <:+: (functionText isAsync name body).toList := by
    have hlines := Stmt.infix_lines_of_mem_partsAll hbody
    simp only [functionText, String.toList_append]
    grind
  simp only [Module.text, String.toList_append, String.toList_join]
  rcases List.mem_append.mp h with h | h
  · have hroot : e.text.toList <:+: (functionText m.isAsync "root" m.root).toList := hfunction h
    grind
  · obtain ⟨b, hb, h⟩ := List.mem_flatMap.mp h
    have hfunctionText : e.text.toList <:+:
        (functionText m.isAsync b.functionName b.body).toList := hfunction h
    have hblock : e.text.toList <:+: (m.blocks.map fun b =>
        functionText m.isAsync b.functionName b.body).flatMap String.toList := by
      rw [List.flatMap_def]
      refine hfunctionText.trans (List.infix_of_mem_flatten ?_)
      exact List.mem_map_of_mem (List.mem_map_of_mem hb)
    grind

end Script

end TemplateManifest
