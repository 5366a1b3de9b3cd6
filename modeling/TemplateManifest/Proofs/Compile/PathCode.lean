import Mathlib.Data.List.Forall2
import TemplateManifest.Asset.Path
import TemplateManifest.Proofs.Compile.Calls

/-!
The code of the path of an asset: a string, or a chain of sums over the code of its literals and
variables.
-/

namespace TemplateManifest

open Script Vocabulary

/-- The path that a node spells: a literal string, or a sum of literals and variables. -/
def Node.assetPath? : Node → Option AssetPath
  | .literal _ (.str path) => some (.static path)
  | .binary pos .add left right =>
    match (Node.binary pos .add left right).fragments with
    | .ok fragments => some (.dynamic fragments)
    | .error _ => none
  | _ => none

/-- The texts of the variables in the code of a path, from left to right. -/
def Script.Expr.values : Expr → List String
  | .string _ | .constant _ => []
  | .ofNode _ code => code.values
  | .operation _ left right => left.values ++ right.values
  | code => [code.text]

theorem values_literal (value : Literal) : (literal value).values = [] := by
  cases value <;> rfl

namespace CodeContext

variable {cx : CodeContext}

/-- The text is emitted for a variable of a template. -/
def EmitsFor (cx : CodeContext) (symbol text : String) : Prop :=
  ∃ pos s t code, cx.expression (.symbol pos symbol) s = .ok code t ∧ code.text = text

/-- The code of a call: the callee, its arguments, and its keyword arguments. -/
theorem expression_call_eq_ok {pos : Position} {callee arg : Node} {args : List Node}
    {kwargs : List (String × Node)} {s t : CodeState} {code : Expr}
    (h : cx.expression (.call pos callee (arg :: args) kwargs) s = .ok code t) :
    ∃ called first others u v, cx.expression arg u = .ok first v ∧
      code = callCode pos called callee.calleeText (first :: others) := by
  obtain ⟨called, u, as, _, ks, _, hargs, _, rfl⟩ := expression_call_eq_ok_iff.mp h
  obtain ⟨first, v, others, hfirst, _, rfl⟩ := expressions_cons_eq_ok_iff.mp hargs
  exact ⟨called, first, others ++ ks, u, v, hfirst, rfl⟩

theorem expression_symbol_values {pos : Position} {symbol : String} {s t : CodeState} {code : Expr}
    (h : cx.expression (.symbol pos symbol) s = .ok code t) : code.values = [code.text] := by
  obtain ⟨rfl, rfl⟩ := expression_symbol_eq_ok_iff.mp h
  cases t.holder? symbol <;> rfl

/-- An operand of a sum that can be part of a path needs no parentheses in the sum. -/
theorem operandCode_of_fragments {node : Node} {fragments : List Fragment} (code : Expr)
    (h : node.fragments = .ok fragments) : node.operandCode true code = code := by
  unfold Node.fragments at h
  split at h
  · rfl
  · rfl
  · rfl
  · cases h

/-- The code of a sum is the sum of the codes of its operands. -/
theorem expression_sum_eq_ok {pos : Position} {left right : Node} {before after : List Fragment}
    {s t : CodeState} {code : Expr} (hleft : left.fragments = .ok before)
    (hright : right.fragments = .ok after)
    (h : cx.expression (.binary pos .add left right) s = .ok code t) :
    ∃ l u r, cx.expression left s = .ok l u ∧ cx.expression right u = .ok r t ∧
      code = .ofNode (.binary pos .add left right) (.operation .add l r) := by
  obtain ⟨l, u, r, hl, hr, rfl⟩ := expression_binary_eq_ok_iff.mp h
  refine ⟨l, u, r, hl, hr, ?_⟩
  rw [decide_eq_true rfl, operandCode_of_fragments l hleft, operandCode_of_fragments r hright]
  rfl

/-- The values in the code of a sum are the texts emitted for its variables, in their order. -/
theorem values_of_fragments {node : Node} {fragments : List Fragment} {s t : CodeState}
    {code : Expr} (hnode : node.fragments = .ok fragments)
    (h : cx.expression node s = .ok code t) :
    List.Forall₂ cx.EmitsFor (fragments.filterMap Fragment.variableName?) code.values := by
  fun_induction Node.fragments node generalizing fragments s t code with
  | case1 => cases hnode
  | case2 => cases hnode
  | case3 pos left right before hleft after hright ihleft ihright =>
    obtain rfl := Except.ok.inj hnode
    obtain ⟨l, u, r, hl, hr, rfl⟩ := expression_sum_eq_ok hleft hright h
    rw [List.filterMap_append]
    exact List.rel_append (ihleft hleft hl) (ihright hright hr)
  | case4 pos value =>
    obtain rfl := Except.ok.inj hnode
    rw [(expression_literal_eq_ok_iff.mp h).1, Expr.values, values_literal]
    exact .nil
  | case5 pos symbol =>
    obtain rfl := Except.ok.inj hnode
    rw [expression_symbol_values h]
    exact .cons ⟨pos, s, t, code, h, rfl⟩ .nil
  | case6 => cases hnode

/-- The code of the path of an asset, and the values of its variables. -/
theorem expression_path_eq_ok {node : Node} {path : AssetPath} {s t : CodeState} {code : Expr}
    (hpath : node.assetPath? = some path) (h : cx.expression node s = .ok code t) :
    ∃ inner, code = .ofNode node inner ∧
      List.Forall₂ cx.EmitsFor path.variableNames inner.values := by
  unfold Node.assetPath? at hpath
  split at hpath
  · next pos text =>
    cases hpath
    exact ⟨_, (expression_literal_eq_ok_iff.mp h).1, .nil⟩
  · next pos left right =>
    split at hpath
    · next fragments hfragments =>
      cases hpath
      have hvalues := values_of_fragments hfragments h
      rw [Node.fragments] at hfragments
      cases hleft : left.fragments with
      | error node =>
        rw [hleft] at hfragments
        cases hfragments
      | ok before =>
        cases hright : right.fragments with
        | error node =>
          rw [hleft, hright] at hfragments
          cases hfragments
        | ok after =>
          obtain ⟨l, u, r, _, _, rfl⟩ := expression_sum_eq_ok hleft hright h
          exact ⟨_, rfl, hvalues⟩
    · cases hpath
  · cases hpath

end CodeContext

end TemplateManifest
