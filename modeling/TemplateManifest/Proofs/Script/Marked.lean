import Mathlib.Data.List.Basic
import TemplateManifest.Script.Text

/-!
The text of the emitted script with a mark on each character: whether it was emitted for a node
of a certain kind. The marks follow the code of nodes wherever it stands, and the characters are
those of the text.
-/

namespace TemplateManifest

namespace Script

/-- Characters that may have a mark. -/
abbrev MarkedText := List (Char × Bool)

/-- A text all of which has the mark, or none of which has it. -/
def plain (mark : Bool) (text : String) : MarkedText :=
  text.toList.map fun c => (c, mark)

/-- Marked texts with commas between them. -/
def commaJoinMarked (mark : Bool) (texts : List MarkedText) : MarkedText :=
  List.intercalate (plain mark ", ") texts

mutual

/-- The text of an expression; the code of the nodes that `owns` tells has the mark. -/
def Expr.marked (owns : Node → Bool) (mark : Bool) : Expr → MarkedText
  | .variable v => plain mark v.text
  | .constant text => plain mark text
  | .string value => plain mark (Text.quote value)
  | .member target name => target.marked owns mark ++ plain mark ("." ++ name)
  | .index target key =>
    target.marked owns mark ++ plain mark "[" ++ key.marked owns mark ++ plain mark "]"
  | .call callee args =>
    callee.marked owns mark ++ plain mark "(" ++
      commaJoinMarked mark (Expr.markedAll owns mark args) ++ plain mark ")"
  | .create constructor args =>
    plain mark "new " ++ constructor.marked owns mark ++ plain mark "(" ++
      commaJoinMarked mark (Expr.markedAll owns mark args) ++ plain mark ")"
  | .paren inner => plain mark "(" ++ inner.marked owns mark ++ plain mark ")"
  | .array items =>
    plain mark "[" ++ commaJoinMarked mark (Expr.markedAll owns mark items) ++ plain mark "]"
  | .object entries =>
    plain mark "\x7b" ++ commaJoinMarked mark (Expr.markedEntries owns mark entries) ++
      plain mark "\x7d"
  | .operation op left right =>
    left.marked owns mark ++ plain mark (" " ++ op.text ++ " ") ++ right.marked owns mark
  | .signed sign operand => plain mark sign.text ++ operand.marked owns mark
  | .conditional cond yes no =>
    cond.marked owns mark ++ plain mark " ? " ++ yes.marked owns mark ++ plain mark " : " ++
      no.marked owns mark
  | .await promise => plain mark "await " ++ promise.marked owns mark
  | .assign v value => plain mark (v.text ++ " = ") ++ value.marked owns mark
  | .sequence items => commaJoinMarked mark (Expr.markedAll owns mark items)
  | .function isAsync params body =>
    plain mark
        (functionWords isAsync ++ " (" ++ commaJoin (params.map Variable.text) ++ ") \x7b\n") ++
      Stmt.markedLines owns mark body ++ plain mark "\x7d"
  | .ofNode node code => code.marked owns (mark || owns node)

/-- The marked texts of some expressions. -/
def Expr.markedAll (owns : Node → Bool) (mark : Bool) : List Expr → List MarkedText
  | [] => []
  | e :: es => e.marked owns mark :: Expr.markedAll owns mark es

/-- The marked texts of the entries of an object. -/
def Expr.markedEntries (owns : Node → Bool) (mark : Bool) :
    List (Expr × Expr) → List MarkedText
  | [] => []
  | (key, value) :: entries =>
    (key.marked owns mark ++ plain mark ": " ++ value.marked owns mark) ::
      Expr.markedEntries owns mark entries

/-- The marked text of a statement. -/
def Stmt.marked (owns : Node → Bool) (mark : Bool) : Stmt → MarkedText
  | .declare v none => plain mark ("var " ++ v.text ++ ";")
  | .declare v (some value) =>
    plain mark ("var " ++ v.text ++ " = ") ++ value.marked owns mark ++ plain mark ";"
  | .assignAll targets value =>
    plain mark (String.intercalate " = " (targets.map Variable.text) ++ " = ") ++
      value.marked owns mark ++ plain mark ";"
  | .append v value => plain mark (v.text ++ " += ") ++ value.marked owns mark ++ plain mark ";"
  | .run value => value.marked owns mark ++ plain mark ";"
  | .branch cond body =>
    plain mark "if (" ++ cond.marked owns mark ++ plain mark ") \x7b\n" ++
      Stmt.markedLines owns mark body ++ plain mark "\x7d"
  | .branchElse cond body otherwise =>
    plain mark "if (" ++ cond.marked owns mark ++ plain mark ") \x7b\n" ++
      Stmt.markedLines owns mark body ++ plain mark "\x7d else \x7b\n" ++
      Stmt.markedLines owns mark otherwise ++ plain mark "\x7d"
  | .guard cond body =>
    plain mark "if (" ++ cond.marked owns mark ++ plain mark ") \x7b " ++
      Stmt.markedSpaced owns mark body ++ plain mark "\x7d"
  | .guardElse cond body otherwise =>
    plain mark "if (" ++ cond.marked owns mark ++ plain mark ") \x7b " ++
      Stmt.markedSpaced owns mark body ++ plain mark "\x7d else \x7b " ++
      Stmt.markedSpaced owns mark otherwise ++ plain mark "\x7d"
  | .countTo counter limit body =>
    plain mark (countHead counter limit) ++ Stmt.markedLines owns mark body ++ plain mark "\x7d"
  | .forKeys key object body =>
    plain mark ("for (var " ++ key.text ++ " in ") ++ object.marked owns mark ++
      plain mark ") \x7b " ++ Stmt.markedSpaced owns mark body ++ plain mark "\x7d"
  | .throw value => plain mark "throw " ++ value.marked owns mark ++ plain mark ";"
  | .return value => plain mark "return " ++ value.marked owns mark ++ plain mark ";"

/-- Marked statements on lines of their own. -/
def Stmt.markedLines (owns : Node → Bool) (mark : Bool) : List Stmt → MarkedText
  | [] => []
  | s :: body => s.marked owns mark ++ plain mark "\n" ++ Stmt.markedLines owns mark body

/-- Marked statements on one line, each with a blank after it. -/
def Stmt.markedSpaced (owns : Node → Bool) (mark : Bool) : List Stmt → MarkedText
  | [] => []
  | s :: body => s.marked owns mark ++ plain mark " " ++ Stmt.markedSpaced owns mark body

end

/-- The marked text of a render function. -/
def functionMarked (owns : Node → Bool) (isAsync : Bool) (name : String) (body : List Stmt) :
    MarkedText :=
  plain false (functionWords isAsync ++ " " ++ name ++ "(env, context, frame, runtime) \x7b\n") ++
    Stmt.markedLines owns false body ++ plain false "\x7d\n"

/-- The marked text of a module. -/
def Module.marked (owns : Node → Bool) (m : Module) : MarkedText :=
  plain false ("var " ++ m.name ++ " = (function() \x7b\n") ++
    functionMarked owns m.isAsync "root" m.root ++
    m.blocks.flatMap (fun b => functionMarked owns m.isAsync b.functionName b.body) ++
    plain false ("return \x7b\n" ++ String.join (m.blocks.map exportLine) ++
      "root: root\n\x7d;\n\x7d)();\n")

@[simp]
theorem map_fst_plain (mark : Bool) (text : String) :
    (plain mark text).map (·.1) = text.toList := by
  simp [plain, Function.comp_def]

@[simp]
theorem map_fst_commaJoinMarked (mark : Bool) (texts : List MarkedText) :
    (commaJoinMarked mark texts).map (·.1) =
      List.intercalate [',', ' '] (texts.map (List.map (·.1))) := by
  induction texts with
  | nil => rfl
  | cons first texts ih =>
    cases texts with
    | nil => simp [commaJoinMarked]
    | cons second texts =>
      have hcons : commaJoinMarked mark (first :: second :: texts) =
          first ++ plain mark ", " ++ commaJoinMarked mark (second :: texts) :=
        List.intercalate_cons_cons
      rw [hcons, List.map_append, List.map_append, ih, map_fst_plain]
      exact List.intercalate_cons_cons.symm

@[simp]
theorem toList_commaJoin (texts : List String) :
    (commaJoin texts).toList = List.intercalate [',', ' '] (texts.map String.toList) :=
  String.toList_intercalate

mutual

theorem Expr.map_fst_marked (owns : Node → Bool) :
    ∀ (mark : Bool) (e : Expr), (e.marked owns mark).map (·.1) = e.text.toList
  | mark, .variable v | mark, .constant text | mark, .string value => by
    simp only [Expr.marked, Expr.text, map_fst_plain]
  | mark, .member target name => by
    simp only [Expr.marked, Expr.text, List.map_append, map_fst_plain, String.toList_append,
      List.append_assoc, target.map_fst_marked owns mark]
  | mark, .index target key => by
    simp only [Expr.marked, Expr.text, List.map_append, map_fst_plain, String.toList_append,
      List.append_assoc, target.map_fst_marked owns mark, key.map_fst_marked owns mark]
  | mark, .call callee args => by
    simp only [Expr.marked, Expr.text, List.map_append, map_fst_plain, map_fst_commaJoinMarked,
      String.toList_append, toList_commaJoin, List.append_assoc, callee.map_fst_marked owns mark,
      Expr.map_markedAll owns mark args]
  | mark, .create constructor args => by
    simp only [Expr.marked, Expr.text, List.map_append, map_fst_plain, map_fst_commaJoinMarked,
      String.toList_append, toList_commaJoin, List.append_assoc,
      constructor.map_fst_marked owns mark, Expr.map_markedAll owns mark args]
  | mark, .paren inner => by
    simp only [Expr.marked, Expr.text, List.map_append, map_fst_plain, String.toList_append,
      List.append_assoc, inner.map_fst_marked owns mark]
  | mark, .array items | mark, .sequence items => by
    simp only [Expr.marked, Expr.text, List.map_append, map_fst_plain, map_fst_commaJoinMarked,
      String.toList_append, toList_commaJoin, List.append_assoc, Expr.map_markedAll owns mark items]
  | mark, .object entries => by
    simp only [Expr.marked, Expr.text, List.map_append, map_fst_plain, map_fst_commaJoinMarked,
      String.toList_append, toList_commaJoin, List.append_assoc,
      Expr.map_markedEntries owns mark entries]
  | mark, .operation op left right => by
    simp only [Expr.marked, Expr.text, List.map_append, map_fst_plain, String.toList_append,
      List.append_assoc, left.map_fst_marked owns mark, right.map_fst_marked owns mark]
  | mark, .signed sign operand => by
    simp only [Expr.marked, Expr.text, List.map_append, map_fst_plain, String.toList_append,
      operand.map_fst_marked owns mark]
  | mark, .conditional cond yes no => by
    simp only [Expr.marked, Expr.text, List.map_append, map_fst_plain, String.toList_append,
      List.append_assoc, cond.map_fst_marked owns mark, yes.map_fst_marked owns mark,
      no.map_fst_marked owns mark]
  | mark, .await promise => by
    simp only [Expr.marked, Expr.text, List.map_append, map_fst_plain, String.toList_append,
      promise.map_fst_marked owns mark]
  | mark, .assign v value => by
    simp only [Expr.marked, Expr.text, List.map_append, map_fst_plain, String.toList_append,
      List.append_assoc, value.map_fst_marked owns mark]
  | mark, .function isAsync params body => by
    simp only [Expr.marked, Expr.text, List.map_append, map_fst_plain, String.toList_append,
      toList_commaJoin, List.append_assoc, Stmt.map_fst_markedLines owns mark body]
  | mark, .ofNode node code => by
    rw [Expr.marked, Expr.text]
    exact code.map_fst_marked owns (mark || owns node)

theorem Expr.map_markedAll (owns : Node → Bool) :
    ∀ (mark : Bool) (es : List Expr), (Expr.markedAll owns mark es).map (List.map (·.1)) =
      (Expr.texts es).map String.toList
  | _, [] => rfl
  | mark, e :: es => by
    simp [Expr.markedAll, Expr.texts, e.map_fst_marked owns mark, Expr.map_markedAll owns mark es]

theorem Expr.map_markedEntries (owns : Node → Bool) :
    ∀ (mark : Bool) (entries : List (Expr × Expr)),
      (Expr.markedEntries owns mark entries).map (List.map (·.1)) =
        (Expr.entryTexts entries).map String.toList
  | _, [] => rfl
  | mark, (key, value) :: entries => by
    simp [Expr.markedEntries, Expr.entryTexts, key.map_fst_marked owns mark,
      value.map_fst_marked owns mark, Expr.map_markedEntries owns mark entries]

theorem Stmt.map_fst_marked (owns : Node → Bool) :
    ∀ (mark : Bool) (s : Stmt), (s.marked owns mark).map (·.1) = s.text.toList
  | mark, .declare v none => by
    simp only [Stmt.marked, Stmt.text, map_fst_plain, String.toList_append, List.append_assoc]
  | mark, .declare v (some value) | mark, .assignAll targets value | mark, .append v value
  | mark, .run value | mark, .throw value | mark, .return value => by
    simp only [Stmt.marked, Stmt.text, List.map_append, map_fst_plain, String.toList_append,
      List.append_assoc, value.map_fst_marked owns mark]
  | mark, .branch cond body => by
    simp only [Stmt.marked, Stmt.text, List.map_append, map_fst_plain, String.toList_append,
      List.append_assoc, cond.map_fst_marked owns mark, Stmt.map_fst_markedLines owns mark body]
  | mark, .branchElse cond body otherwise => by
    simp only [Stmt.marked, Stmt.text, List.map_append, map_fst_plain, String.toList_append,
      List.append_assoc, cond.map_fst_marked owns mark, Stmt.map_fst_markedLines owns mark body,
      Stmt.map_fst_markedLines owns mark otherwise]
  | mark, .guard cond body => by
    simp only [Stmt.marked, Stmt.text, List.map_append, map_fst_plain, String.toList_append,
      List.append_assoc, cond.map_fst_marked owns mark, Stmt.map_fst_markedSpaced owns mark body]
  | mark, .guardElse cond body otherwise => by
    simp only [Stmt.marked, Stmt.text, List.map_append, map_fst_plain, String.toList_append,
      List.append_assoc, cond.map_fst_marked owns mark, Stmt.map_fst_markedSpaced owns mark body,
      Stmt.map_fst_markedSpaced owns mark otherwise]
  | mark, .countTo counter limit body => by
    simp only [Stmt.marked, Stmt.text, List.map_append, map_fst_plain, String.toList_append,
      List.append_assoc, Stmt.map_fst_markedLines owns mark body]
  | mark, .forKeys key object body => by
    simp only [Stmt.marked, Stmt.text, List.map_append, map_fst_plain, String.toList_append,
      List.append_assoc, object.map_fst_marked owns mark, Stmt.map_fst_markedSpaced owns mark body]

theorem Stmt.map_fst_markedLines (owns : Node → Bool) :
    ∀ (mark : Bool) (body : List Stmt),
      (Stmt.markedLines owns mark body).map (·.1) = (Stmt.lines body).toList
  | _, [] => rfl
  | mark, s :: body => by
    simp [Stmt.markedLines, Stmt.lines, s.map_fst_marked owns mark,
      Stmt.map_fst_markedLines owns mark body]

theorem Stmt.map_fst_markedSpaced (owns : Node → Bool) :
    ∀ (mark : Bool) (body : List Stmt),
      (Stmt.markedSpaced owns mark body).map (·.1) = (Stmt.spaced body).toList
  | _, [] => rfl
  | mark, s :: body => by
    simp [Stmt.markedSpaced, Stmt.spaced, s.map_fst_marked owns mark,
      Stmt.map_fst_markedSpaced owns mark body]

end

/-- The characters of the marked text are those of the text of the module. -/
theorem Module.map_fst_marked (owns : Node → Bool) (m : Module) :
    (m.marked owns).map (·.1) = m.text.toList := by
  have hfunction (isAsync : Bool) (name : String) (body : List Stmt) :
      (functionMarked owns isAsync name body).map (·.1) =
        (functionText isAsync name body).toList := by
    simp [functionMarked, functionText, Stmt.map_fst_markedLines]
  simp [Module.marked, Module.text, hfunction, List.map_flatMap, List.flatMap_map]

end Script

end TemplateManifest
